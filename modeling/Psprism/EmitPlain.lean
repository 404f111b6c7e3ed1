import Psprism.Emit
import Psprism.StmtFrame

/-!
# Straight-line words: translated and interpreted

For every word that is neither a control transfer, a VFPU instruction, a syscall nor a conversion
of a float to a word, the emitted statement and the interpreter's `switch` do the same, register
zero apart: where the interpreter writes register zero and clears it afterwards, the emitter writes
nothing. The statement is plain, so the pc and pending branch around it do not matter, except that
a fault records the pc the state holds.
-/

namespace Psprism

/-! ### Register zero -/

namespace State
variable {s : State}

theorem resetZero_of_zero (h : s.gpr 0 = 0) : s.resetZero = s := by
  have hupd : Function.update s.gpr 0 0 = s.gpr := by rw [← h]; exact Function.update_eq_self _ _
  simp only [resetZero, setGpr, hupd]

theorem setGpr_resetZero (h : s.gpr 0 = 0) (r : Reg) (v : Word) :
    (s.setGpr r v).resetZero = if r = 0 then s else s.setGpr r v := by
  split
  · rename_i hr
    have hupd : Function.update s.gpr 0 0 = s.gpr := by rw [← h]; exact Function.update_eq_self _ _
    simp only [resetZero, setGpr, hr, Function.update_idem, hupd]
  · rename_i hr
    exact resetZero_of_zero (by rw [setGpr_gpr, Function.update_of_ne (Ne.symm hr), h])

theorem resetZero_gpr_zero (s : State) : s.resetZero.gpr 0 = 0 :=
  Function.update_self (f := s.gpr) 0 0

theorem resetZero_data (s : State) : s.resetZero.data = s.data.resetZero := rfl

end State

theorem loadWith_gpr {n : Nat} (s : State) (address : Word) (place : Option (Region × Nat))
    (value : Bytes → Nat → BitVec n) : (loadWith s address place value).2.gpr = s.gpr := by
  cases place <;> rfl

theorem load8_gpr (s : State) (address : Word) : (load8 s address).2.gpr = s.gpr := loadWith_gpr ..

theorem load16_gpr (s : State) (address : Word) : (load16 s address).2.gpr = s.gpr := loadWith_gpr ..

theorem load32_gpr (s : State) (address : Word) : (load32 s address).2.gpr = s.gpr := loadWith_gpr ..

theorem storeWith_gpr (s : State) (address : Word) (place : Option (Region × Nat))
    (update : Bytes → Nat → Bytes) : (storeWith s address place update).gpr = s.gpr := by
  cases place <;> rfl

theorem loadPart_gpr (s : State) (address : Word) (first count : Nat) (value : Word) :
    (loadPart s address first count value).2.gpr = s.gpr := by
  unfold loadPart
  split <;> rfl

theorem LoadOp.exec_gpr (op : LoadOp) (s : State) (address : Word) :
    (op.exec s address).2.gpr = s.gpr := by
  cases op
  exacts [load8_gpr s address, load8_gpr s address, load16_gpr s address, load16_gpr s address,
    load32_gpr s address]

theorem Side.load_gpr (side : Side) (s : State) (address value : Word) :
    (side.load s address value).2.gpr = s.gpr := by
  cases side <;> exact loadPart_gpr ..

theorem StoreOp.exec_gpr (op : StoreOp) (s : State) (address value : Word) :
    (op.exec s address value).gpr = s.gpr := by
  cases op <;> exact storeWith_gpr ..

theorem Side.store_gpr (side : Side) (s : State) (address value : Word) :
    (side.store s address value).gpr = s.gpr := by
  cases side <;> exact storeWith_gpr ..

/-- The immediate an unsigned and a signed read give. -/
theorem signedImmediate_and (w : Word) : signedImmediate (w &&& 0xffff) = signedImmediate w := by
  unfold signedImmediate
  congr 1
  ext i hi
  have hmask : ∀ j : Fin 16, (0xffff : Word).getLsbD j.val = true := by decide
  have hbit := hmask ⟨i, hi⟩
  simp only [BitVec.getElem_setWidth, BitVec.getLsbD_and, hbit, Bool.and_true]

section
variable {H : Host} {currentPc w : Word} {s : State}

theorem eval_emitImmediate (himm : instructionWord s currentPc w = w) (relocated : Bool) :
    (emitImmediate w relocated).eval H currentPc s = w &&& 0xffff := by
  cases relocated
  · rfl
  · show instructionWord s currentPc w &&& 0xffff = _
    rw [himm]

theorem eval_emitSignedImmediate (himm : instructionWord s currentPc w = w) (relocated : Bool) :
    (emitSignedImmediate w relocated).eval H currentPc s = signedImmediate w := by
  cases relocated
  · rfl
  · show signedImmediate (instructionWord s currentPc w &&& 0xffff) = _
    rw [himm, signedImmediate_and]

/-- The emitter's `/* nop */` for register zero is what clearing it leaves. -/
theorem exec_assign (h : s.gpr 0 = 0) (r : Reg) (e : Expr) :
    (assign r e).exec H currentPc s = (s.setGpr r (e.eval H currentPc s)).resetZero := by
  rw [State.setGpr_resetZero h]
  unfold assign
  split <;> rfl

/-- A dropped load is a load to register zero. -/
theorem assign_dest {r : Word × State} (h : r.2.gpr 0 = 0) (i : Reg) :
    (if i = 0 then Dest.none else .gpr i).assign r = (r.2.setGpr i r.1).resetZero := by
  rw [State.setGpr_resetZero h]
  split <;> rfl

theorem exec_emitLoad (h : s.gpr 0 = 0) (op : LoadOp) (r : Reg) (address : Expr) :
    (emitLoad op r address).exec H currentPc s =
      (loadGpr r id (op.exec s (address.eval H currentPc s))).resetZero := by
  have h' : (op.exec s (address.eval H currentPc s)).2.gpr 0 = 0 := by rw [op.exec_gpr, h]
  exact assign_dest h' r

/-- A statement that assigns no general register. -/
theorem eq_resetZero {t : State} (h : t.gpr 0 = 0) : t = t.resetZero :=
  (State.resetZero_of_zero h).symm

theorem WideOp.exec_gpr (op : WideOp) (s : State) (a b : Word) : (op.exec s a b).gpr = s.gpr := by
  cases op with
  | div => simp only [WideOp.exec]; split_ifs <;> rfl
  | divu => simp only [WideOp.exec]; split_ifs <;> rfl
  | _ => rfl

theorem interpretDiv_eq (s : State) (a b : Word) : interpretDiv s a b = WideOp.div.exec s a b := by
  simp only [interpretDiv, WideOp.exec]
  split
  · rfl
  · split
    · rename_i hmin
      rw [hmin.1]
    · rfl

theorem exec_wide (h : s.gpr 0 = 0) (op : WideOp) (a b : Word) :
    op.exec s a b = (op.exec s a b).resetZero :=
  eq_resetZero (by rw [op.exec_gpr, h])

/-- movz and movn. -/
theorem exec_move (h : s.gpr 0 = 0) (r : Reg) (c : Cond) (e : Expr) {P : Prop} [Decidable P]
    (hP : c.eval H currentPc s = true ↔ P) :
    (if r = 0 then Stmt.nop else .ifThen c (.setGpr r e)).exec H currentPc s =
      (if P then s.setGpr r (e.eval H currentPc s) else s).resetZero := by
  rw [apply_ite State.resetZero, State.setGpr_resetZero h, State.resetZero_of_zero h]
  by_cases hr : r = 0
  · simp only [if_pos hr, Stmt.exec, ite_self]
  · simp only [if_neg hr, Stmt.exec, hP]

theorem Classification.nativeIf_native {c : Bool} {name : String}
    (h : (nativeIf c name).lowering = .native) : c = true := by
  cases c
  · cases h
  · rfl

/-- Op 0, but for jr, jalr and syscall. -/
theorem exec_special (h : s.gpr 0 = 0) (pc : Word) {c : Classification}
    (hc : Classification.special (rsOf w) (shiftOf w) (functionOf w) = c)
    (hn : c.lowering = .native) (hd : c.flags.delayedBranch = false) (hsys : functionOf w ≠ 0x0c#6) :
    (emitSpecial pc w).exec H currentPc s = (interpretSpecial s currentPc w).resetZero := by
  unfold Classification.special at hc
  split at hc
  all_goals
    rename_i hf
    simp only [emitSpecial, interpretSpecial, hf]
    try exact exec_assign h _ _
  · -- sll: the word 0 is the sll that writes register zero
    have hw : w = 0 → rdOf w = 0 := by rintro rfl; rfl
    rw [State.setGpr_resetZero h]
    by_cases hr : rdOf w = 0
    · rw [if_pos (.inl hr), if_pos hr]; rfl
    · rw [if_neg (not_or.2 ⟨hr, fun h0 => hr (hw h0)⟩), if_neg hr]; rfl
  · by_cases h1 : rsOf w = 1
    · simp only [if_pos h1]; exact exec_assign h _ _
    · have h0 : rsOf w = 0 := by
        rw [if_neg h1] at hc
        rw [← hc] at hn
        exact of_decide_eq_true (Classification.nativeIf_native hn)
      simp only [if_neg h1, if_pos h0]; exact exec_assign h _ _
  · by_cases h1 : shiftOf w = 1
    · simp only [if_pos h1]; exact exec_assign h _ _
    · have h0 : shiftOf w = 0 := by
        rw [if_neg h1] at hc
        rw [← hc] at hn
        exact of_decide_eq_true (Classification.nativeIf_native hn)
      simp only [if_neg h1, if_pos h0]; exact exec_assign h _ _
  · subst hc; cases hd
  · subst hc; cases hd
  · exact exec_move h _ _ _ decide_eq_true_iff
  · exact exec_move h _ _ _ decide_eq_true_iff
  · exact absurd hf hsys
  · exact eq_resetZero h
  · exact eq_resetZero h
  · exact eq_resetZero h
  · exact eq_resetZero h
  · exact exec_wide h .mult _ _
  · exact exec_wide h .multu _ _
  · rw [interpretDiv_eq]; exact exec_wide h .div _ _
  · exact exec_wide h .divu _ _
  · exact exec_wide h .madd _ _
  · exact exec_wide h .maddu _ _
  · exact exec_wide h .msub _ _
  · exact exec_wide h .msubu _ _
  · subst hc; cases hn

/-- The conversions of a float to a word. -/
def roundsToWord (function : BitVec 6) : Bool :=
  (0x0c ≤ function ∧ function ≤ 0x0f) ∨ function = 0x24

theorem scalarFunction_cases : ∀ f : BitVec 6, Classification.scalarFunction f = true →
    f ∈ [0x00#6, 0x01#6, 0x02#6, 0x03#6, 0x04#6, 0x05#6, 0x06#6, 0x07#6, 0x0c#6, 0x0d#6, 0x0e#6,
      0x0f#6, 0x11#6, 0x20#6, 0x24#6] ∨ 0x30 ≤ f := by
  decide

/-- COP1 with format single, but for the conversions to a word. -/
theorem exec_single (hf : Classification.scalarFunction (functionOf w) = true)
    (hr : roundsToWord (functionOf w) = false) :
    (emitSingle w).exec H currentPc s = interpretSingle H s currentPc w := by
  rcases scalarFunction_cases _ hf with hmem | h30
  · simp only [List.mem_cons, List.not_mem_nil, or_false] at hmem
    rcases hmem with hfn | hfn | hfn | hfn | hfn | hfn | hfn | hfn | hfn | hfn | hfn | hfn | hfn |
      hfn | hfn <;> simp only [emitSingle, interpretSingle, hfn] at hr ⊢
    all_goals
      first
        | rfl
        | exact absurd hr (by decide)
        | simp only [Stmt.exec, Cond.eval, decide_eq_true_eq]; rfl
  · unfold emitSingle interpretSingle
    dsimp only
    split
    case h_16 => simp only [if_pos h30]; rfl
    all_goals
      rename_i hfn
      rw [hfn] at h30
      exact absurd h30 (by decide)

theorem interpretSingle_gpr (s : State) (currentPc w : Word) :
    (interpretSingle H s currentPc w).gpr = s.gpr := by
  unfold interpretSingle
  dsimp only
  split
  all_goals
    first
      | rfl
      | split <;> rfl

/-- Op 0x11, but for bc1 and the conversions to a word. -/
theorem exec_cop1 (h : s.gpr 0 = 0) (pc : Word) (relocated : Bool) {c : Classification}
    (hc : Classification.cop1 (rsOf w) (rtOf w) (functionOf w) = c) (hn : c.lowering = .native)
    (hd : c.flags.delayedBranch = false)
    (hr : rsOf w = 0x10#5 → roundsToWord (functionOf w) = false) :
    (emitCop1 pc w relocated).exec H currentPc s = (interpretCop1 H s currentPc w).resetZero := by
  unfold Classification.cop1 at hc
  dsimp only at hc
  split at hc
  case isFalse =>
    split at hc
    · subst hc; cases hd
    · subst hc; cases hn
  case isTrue hrs =>
    rcases hrs with hrs | hrs | hrs | hrs | ⟨hrs, hf⟩ | ⟨hrs, hf⟩ <;>
      simp only [emitCop1, interpretCop1, hrs]
    · exact exec_assign h _ _
    · -- cfc1: one assignment for each control register
      show Stmt.exec H currentPc (if rtOf w = 0 then _ else _) s = (s.setGpr (rtOf w) _).resetZero
      rw [State.setGpr_resetZero h]
      split
      · rfl
      · split
        · rfl
        · split <;> rfl
    · exact eq_resetZero h
    · show Stmt.exec H currentPc (if rdOf w = 31 then _ else _) s = State.resetZero (if _ then _ else _)
      split <;> exact eq_resetZero h
    · show (emitSingle w).exec H currentPc s = (interpretSingle H s currentPc w).resetZero
      rw [exec_single hf (hr hrs)]
      exact eq_resetZero (by rw [interpretSingle_gpr, h])
    · simp only [hf]
      exact eq_resetZero h

/-- Op 0x1c. -/
theorem exec_special2 (h : s.gpr 0 = 0) (hf : functionOf w = 0x20#6 ∨ functionOf w = 0x21#6 ∨
    functionOf w = 0x2c#6 ∨ functionOf w = 0x2d#6) :
    (emitSpecial2 w).exec H currentPc s = (interpretSpecial2 s currentPc w).resetZero := by
  rcases hf with hf | hf | hf | hf <;> simp only [emitSpecial2, interpretSpecial2, hf] <;>
    exact exec_assign h _ _

/-- Op 0x1f. -/
theorem exec_special3 (h : s.gpr 0 = 0) {c : Classification}
    (hc : Classification.special3 (rdOf w) (shiftOf w) (functionOf w) = c) (hn : c.lowering = .native) :
    (emitSpecial3 w).exec H currentPc s = (interpretSpecial3 s currentPc w).resetZero := by
  rw [← hc] at hn
  have hf := of_decide_eq_true (Classification.nativeIf_native hn)
  rcases hf with hf | ⟨hf, hle⟩ | ⟨hf, hs | hs | hs | hs | hs⟩
  · simp only [emitSpecial3, interpretSpecial3, hf]
    exact exec_assign h _ _
  · simp only [emitSpecial3, interpretSpecial3, hf, hle, and_self]
    exact exec_assign h _ _
  all_goals
    simp only [emitSpecial3, interpretSpecial3, hf, hs]
    exact exec_assign h _ _

/-! ### Straight-line words -/

/-- The words a plain statement is emitted for: native, no control transfer, no syscall. -/
structure PlainWord (w : Word) : Prop where
  native : (classify w).lowering = .native
  straight : (classify w).flags.delayedBranch = false
  notSyscall : ¬ (opOf w = 0x00#6 ∧ functionOf w = 0x0c#6)

instance (w : Word) : Decidable (PlainWord w) :=
  decidable_of_iff ((classify w).lowering = .native ∧ (classify w).flags.delayedBranch = false ∧
    ¬ (opOf w = 0x00#6 ∧ functionOf w = 0x0c#6)) ⟨fun h => ⟨h.1, h.2.1, h.2.2⟩, fun h => ⟨h.1, h.2, h.3⟩⟩

/-- round.w.s, trunc.w.s, ceil.w.s, floor.w.s and cvt.w.s. -/
def convertsToWord (w : Word) : Bool :=
  opOf w = 0x11 ∧ rsOf w = 0x10 ∧ roundsToWord (functionOf w)

theorem vfpu_lowering (w : Word) : (Classification.vfpu w).lowering ≠ .native := by
  unfold Classification.vfpu
  dsimp only
  split <;> simp

theorem regimm_delayedBranch : ∀ rt : Reg, (Classification.regimm rt).lowering = .native →
    (Classification.regimm rt).flags.delayedBranch = true := by
  decide

/-- Only the loaded value depends on the old one. -/
theorem loadPart_state (s : State) (address : Word) (first count : Nat) (value value' : Word) :
    (loadPart s address first count value).2 = (loadPart s address first count value').2 := by
  unfold loadPart
  split <;> rfl

theorem exec_loadPart (h : s.gpr 0 = 0) (side : Side) (r : Reg) (address : Expr) :
    (if r = 0 then Stmt.loadPart side .none address (.lit 0)
      else .loadPart side (.gpr r) address (.gpr r)).exec H currentPc s =
      (loadGpr r id (side.load s (address.eval H currentPc s) (s.gpr r))).resetZero := by
  have h' : (side.load s (address.eval H currentPc s) (s.gpr r)).2.gpr 0 = 0 := by
    rw [side.load_gpr, h]
  have hz : (side.load s (address.eval H currentPc s) 0).2 =
      (side.load s (address.eval H currentPc s) (s.gpr r)).2 := by
    cases side <;> exact loadPart_state ..
  rw [loadGpr, State.setGpr_resetZero h']
  split
  · exact hz
  · rfl

/-- The emitted statement is the interpreter's `switch`, on any state. -/
theorem exec_emitNative (h : s.gpr 0 = 0) (himm : instructionWord s currentPc w = w)
    (hw : PlainWord w) (hconv : convertsToWord w = false) (pc : Word) (relocated : Bool)
    (preferredBase : Word) :
    (emitNative pc w relocated preferredBase).exec H currentPc s =
      (interpretBody H s currentPc w).resetZero := by
  obtain ⟨hn, hd, hsys⟩ := hw
  generalize hc : classify w = c at hn hd
  unfold classify at hc
  dsimp only at hc
  split at hc
  · subst hc; exact absurd hn (vfpu_lowering w)
  have hu := eval_emitImmediate (H := H) himm relocated
  have hi := eval_emitSignedImmediate (H := H) himm relocated
  split at hc
  all_goals
    rename_i hop
    simp only [emitNative, interpretBody, hop]
  · exact exec_special h pc hc hn hd fun hf => hsys ⟨hop, hf⟩
  · subst hc; exact absurd hd (by rw [regimm_delayedBranch _ hn]; decide)
  iterate 6 (subst hc; cases hd)
  iterate 7
    rw [exec_assign h]
    simp only [Expr.eval, BinOp.eval, hi, hu]
  · rw [exec_assign h]
    simp only [Expr.eval, BinOp.eval, hu]
    rfl
  · refine exec_cop1 h pc relocated hc hn hd fun hrs => ?_
    simpa [convertsToWord, hop, hrs] using hconv
  iterate 4 (subst hc; cases hd)
  · subst hc
    exact exec_special2 h (of_decide_eq_true (Classification.nativeIf_native hn))
  · exact exec_special3 h hc hn
  -- lb, lh, lwl, lw, lbu, lhu, lwr
  iterate 2
    rw [exec_emitLoad h]
    simp only [Expr.eval, BinOp.eval, hi]
    rfl
  · rw [exec_loadPart h]
    simp only [Expr.eval, BinOp.eval, hi]
    rfl
  iterate 3
    rw [exec_emitLoad h]
    simp only [Expr.eval, BinOp.eval, hi]
    rfl
  · rw [exec_loadPart h]
    simp only [Expr.eval, BinOp.eval, hi]
    rfl
  -- sb, sh, swl, sw, swr
  iterate 5
    simp only [Stmt.exec, Expr.eval, BinOp.eval, hi]
    first
      | exact eq_resetZero ((congrFun (StoreOp.exec_gpr _ _ _ _) 0).trans h)
      | exact eq_resetZero ((congrFun (Side.store_gpr _ _ _ _) 0).trans h)
  · exact eq_resetZero h
  · rw [exec_emitLoad h]
    simp only [Expr.eval, BinOp.eval, hi]
    rfl
  · simp only [Stmt.exec, Expr.eval, BinOp.eval, hi]
    exact eq_resetZero ((congrFun (load32_gpr _ _) 0).trans h)
  · -- sc: the store, then 1 in `rt`
    have h' : (store32 s (s.gpr (rsOf w) + signedImmediate w) (s.gpr (rtOf w))).gpr 0 = 0 := by
      rw [store32, storeWith_gpr, h]
    rw [State.setGpr_resetZero h']
    by_cases hr : rtOf w = 0 <;>
      simp only [hr, ne_eq, not_true_eq_false, not_false_eq_true, if_true, if_false, Stmt.exec,
        Expr.eval, BinOp.eval, hi] <;> rfl
  · simp only [Stmt.exec, Expr.eval, BinOp.eval, hi]
    exact eq_resetZero ((congrFun (StoreOp.exec_gpr .w32 _ _ _) 0).trans h)
  · subst hc; cases hn

/-! ### The statements are plain -/

theorem assign_plain (r : Reg) (e : Expr) : (assign r e).plain = true := by
  unfold assign
  split <;> rfl

theorem emitSpecial_plain (pc : Word) {c : Classification}
    (hc : Classification.special (rsOf w) (shiftOf w) (functionOf w) = c)
    (hn : c.lowering = .native) (hd : c.flags.delayedBranch = false) (hsys : functionOf w ≠ 0x0c#6) :
    (emitSpecial pc w).plain = true := by
  unfold Classification.special at hc
  split at hc
  all_goals
    rename_i hf
    simp only [emitSpecial, hf]
    first
      | rfl
      | exact assign_plain _ _
      | skip
  · split <;> rfl
  · by_cases h1 : rsOf w = 1
    · simp only [if_pos h1, assign_plain]
    · rw [if_neg h1] at hc
      rw [← hc] at hn
      simp only [if_neg h1, if_pos (of_decide_eq_true (Classification.nativeIf_native hn)), assign_plain]
  · by_cases h1 : shiftOf w = 1
    · simp only [if_pos h1, assign_plain]
    · rw [if_neg h1] at hc
      rw [← hc] at hn
      simp only [if_neg h1, if_pos (of_decide_eq_true (Classification.nativeIf_native hn)), assign_plain]
  · subst hc; cases hd
  · subst hc; cases hd
  · split <;> rfl
  · split <;> rfl
  · exact absurd hf hsys
  · subst hc; cases hn

theorem emitSingle_plain (hf : Classification.scalarFunction (functionOf w) = true) :
    (emitSingle w).plain = true := by
  rcases scalarFunction_cases _ hf with hmem | h30
  · simp only [List.mem_cons, List.not_mem_nil, or_false] at hmem
    rcases hmem with hfn | hfn | hfn | hfn | hfn | hfn | hfn | hfn | hfn | hfn | hfn | hfn | hfn |
      hfn | hfn <;> simp only [emitSingle, hfn] <;> rfl
  · unfold emitSingle
    dsimp only
    split
    case h_16 => simp only [if_pos h30]; rfl
    all_goals rfl

theorem emitCop1_plain (pc : Word) (relocated : Bool) {c : Classification}
    (hc : Classification.cop1 (rsOf w) (rtOf w) (functionOf w) = c) (hn : c.lowering = .native)
    (hd : c.flags.delayedBranch = false) : (emitCop1 pc w relocated).plain = true := by
  unfold Classification.cop1 at hc
  dsimp only at hc
  split at hc
  case isFalse =>
    split at hc
    · subst hc; cases hd
    · subst hc; cases hn
  case isTrue hrs =>
    rcases hrs with hrs | hrs | hrs | hrs | ⟨hrs, hf⟩ | ⟨hrs, hf⟩ <;> simp only [emitCop1, hrs]
    · exact assign_plain _ _
    · show Stmt.plain (if rtOf w = 0 then _ else _) = true
      split_ifs <;> rfl
    · rfl
    · show Stmt.plain (if rdOf w = 31 then _ else _) = true
      split_ifs <;> rfl
    · exact emitSingle_plain hf
    · simp only [hf]; rfl

theorem emitSpecial2_plain (hf : functionOf w = 0x20#6 ∨ functionOf w = 0x21#6 ∨
    functionOf w = 0x2c#6 ∨ functionOf w = 0x2d#6) : (emitSpecial2 w).plain = true := by
  rcases hf with hf | hf | hf | hf <;> simp only [emitSpecial2, hf] <;> exact assign_plain _ _

theorem emitSpecial3_plain {c : Classification}
    (hc : Classification.special3 (rdOf w) (shiftOf w) (functionOf w) = c) (hn : c.lowering = .native) :
    (emitSpecial3 w).plain = true := by
  rw [← hc] at hn
  have hf := of_decide_eq_true (Classification.nativeIf_native hn)
  rcases hf with hf | ⟨hf, hle⟩ | ⟨hf, hs | hs | hs | hs | hs⟩
  · simp only [emitSpecial3, hf]
    exact assign_plain _ _
  · simp only [emitSpecial3, hf, hle, and_self]
    exact assign_plain _ _
  all_goals
    simp only [emitSpecial3, hf, hs]
    exact assign_plain _ _

theorem emitNative_plain (hw : PlainWord w) (pc : Word) (relocated : Bool) (preferredBase : Word) :
    (emitNative pc w relocated preferredBase).plain = true := by
  obtain ⟨hn, hd, hsys⟩ := hw
  generalize hc : classify w = c at hn hd
  unfold classify at hc
  dsimp only at hc
  split at hc
  · subst hc; exact absurd hn (vfpu_lowering w)
  split at hc
  all_goals
    rename_i hop
    simp only [emitNative, hop]
    first
      | exact assign_plain _ _
      | rfl
      | skip
  · exact emitSpecial_plain pc hc hn hd fun hf => hsys ⟨hop, hf⟩
  · subst hc; exact absurd hd (by rw [regimm_delayedBranch _ hn]; decide)
  iterate 6 (subst hc; cases hd)
  · exact emitCop1_plain pc relocated hc hn hd
  iterate 4 (subst hc; cases hd)
  · subst hc
    exact emitSpecial2_plain (of_decide_eq_true (Classification.nativeIf_native hn))
  · exact emitSpecial3_plain hc hn
  · split <;> rfl
  · split <;> rfl
  · split <;> rfl
  · subst hc; cases hn

theorem emitInstruction_plain (hw : PlainWord w) (pc : Word) (relocated : Bool)
    (preferredBase : Word) :
    emitInstruction pc w relocated preferredBase = emitNative pc w relocated preferredBase := by
  have hn : (decodeAllegrex w).lowering = .native := hw.native
  unfold emitInstruction
  rw [hn]

end

/-! ### One step -/

/-- Where two accesses from states that differ in the pc alone record the same pc. -/
theorem FaultStep.faultPc_eq_iff {s s' t t' : State} (h : FaultStep s t) (h' : FaultStep s' t')
    (hrun : s.stopReason = .running) (hrun' : s'.stopReason = .running)
    (hfault : s'.faultPc = s.faultPc) (hstop : t'.stopReason = t.stopReason) :
    t.faultPc = t'.faultPc ↔ ¬ (t.stopReason = .memoryFault ∧ s.faultPc = 0 ∧ s.pc ≠ s'.pc) := by
  rcases h.fault with ⟨hs, hf⟩ | ⟨hs, hf⟩ <;> rcases h'.fault with ⟨hs', hf'⟩ | ⟨hs', hf'⟩
  · simp only [hf, hf', hfault, hs, hrun, reduceCtorEq, false_and, not_false_eq_true]
  · rw [hstop, hs, hrun] at hs'; cases hs'
  · rw [hstop, hs, hrun'] at hs'; cases hs'
  · rw [hf, hf', hfault]
    by_cases h0 : s.faultPc = 0
    · simp only [h0, if_true, hs, true_and, ne_eq, not_not]
    · simp only [h0, if_false, false_and, and_false, not_false_eq_true]

/-- The statement emitted for a straight-line word and one step of the interpreter leave a running
CPU with the same registers, memory and stop reason. The fault pc is the same but for a first fault
under a pc that is not that of the next instruction. -/
theorem emitInstruction_eq_interpretAllegrex (H : Host) (pc w currentPc preferredBase : Word)
    (relocated : Bool) (s : State) (hw : PlainWord w) (hconv : convertsToWord w = false)
    (halign : currentPc &&& 3 = 0) (hrun : s.stopReason = .running) (h0 : s.gpr 0 = 0)
    (hword : HoldsWord s currentPc w) :
    let t := ((emitInstruction pc w relocated preferredBase).exec H currentPc s).resetZero
    let i := interpretAllegrex H s currentPc
    i.1 = true ∧ t.data = i.2.data ∧ (t.faultPc = i.2.faultPc ↔
      ¬ (t.stopReason = .memoryFault ∧ s.faultPc = 0 ∧ s.pc ≠ currentPc + 4)) := by
  have hvalid : (decodeAllegrex w).valid = true := by
    simp only [DecodedInstruction.valid, show (decodeAllegrex w).lowering = .native from hw.native]
    rfl
  have hexec := exec_emitNative (H := H) (s := s.advance currentPc) h0 hword.immediate hw hconv pc
    relocated preferredBase
  rw [emitInstruction_plain hw, interpretAllegrex_of_holds halign hrun hword hvalid, ← hexec]
  have hplain := emitNative_plain hw pc relocated preferredBase
  generalize emitNative pc w relocated preferredBase = p at hplain hexec ⊢
  have hdata : (p.exec H currentPc s).data = (p.exec H currentPc (s.advance currentPc)).data :=
    p.exec_data_congr hplain rfl
  refine ⟨rfl, ?_, ?_⟩
  · rw [State.applyBranch_eq]
    show _ = ((p.exec H currentPc (s.advance currentPc))).data
    rw [State.resetZero_data, hdata, ← State.resetZero_data, hexec,
      State.resetZero_of_zero (State.resetZero_gpr_zero _)]
  · rw [State.applyBranch_eq]
    exact (p.exec_faultStep hplain s).faultPc_eq_iff (p.exec_faultStep hplain (s.advance currentPc))
      hrun hrun rfl (congrArg State.stopReason hdata).symm

/-- `addu $3, $1, $2` of -16 and 37. -/
theorem emitInstruction_eq_interpretAllegrex_addu :
    let s := ((State.ofImage 0x08804000 [0x00221821]).setGpr 1 0xfffffff0).setGpr 2 0x25
    PlainWord 0x00221821 ∧ HoldsWord s 0x08804000 0x00221821 ∧
      ((emitInstruction 0 0x00221821 false 0).exec zeroOperandHost 0x08804000 s).resetZero.data =
        (interpretAllegrex zeroOperandHost s 0x08804000).2.data ∧
      (interpretAllegrex zeroOperandHost s 0x08804000).2.gpr 3 = 0x15 := by
  intro s
  have hw : PlainWord 0x00221821 := by decide
  have hword : HoldsWord s 0x08804000 0x00221821 :=
    .of_value (by decide) (by decide) (by decide)
  have hsum : (interpretAllegrex zeroOperandHost s 0x08804000).2.gpr 3 = 0x15 := by decide +kernel
  exact ⟨hw, hword, (emitInstruction_eq_interpretAllegrex zeroOperandHost 0 0x00221821 0x08804000 0
    false s hw (by decide) (by decide) rfl rfl hword).2.1, hsum⟩

/-- `lw $1, 0($0)` faults: the statement records the pc the state holds, the interpreter that of the
next instruction. A stopped CPU the interpreter leaves alone, `addiu $1, $0, 1` translated is run. -/
theorem emitInstruction_ne_interpretAllegrex :
    (let s := State.ofImage 0x08804000 [0x8c010000];
      PlainWord 0x8c010000 ∧ HoldsWord s 0x08804000 0x8c010000 ∧
        ((emitInstruction 0 0x8c010000 false 0).exec zeroOperandHost 0x08804000 s).resetZero.faultPc ≠
          (interpretAllegrex zeroOperandHost s 0x08804000).2.faultPc) ∧
    (let s := { State.ofImage 0x08804000 [0x24010001] with stopReason := .returned };
      PlainWord 0x24010001 ∧ HoldsWord s 0x08804000 0x24010001 ∧
        ((emitInstruction 0 0x24010001 false 0).exec zeroOperandHost 0x08804000 s).resetZero.gpr 1 ≠
          (interpretAllegrex zeroOperandHost s 0x08804000).2.gpr 1) :=
  ⟨⟨by decide, ⟨rfl, rfl⟩, by decide⟩, ⟨by decide, ⟨rfl, rfl⟩, by decide⟩⟩

end Psprism
