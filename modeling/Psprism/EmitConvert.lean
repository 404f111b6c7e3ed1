import Psprism.EmitPlain

/-!
# Conversions of a float to a word: translated and interpreted

Generated code converts with `rounded_word` in every rounding mode. The interpreter does so too for
ceil.w.s, floor.w.s and cvt.w.s, but casts `std::round` and `std::trunc` of the float for round.w.s
and trunc.w.s: `std::round` rounds ties away from zero where `rounded_word` rounds them to even, and
a cast that does not fit is whatever the host makes of it.
-/

namespace Psprism

open Binary32

/-- `toRat value` is a value of `int32_t` after any rounding. -/
def fitsInt32 (value : Word) : Bool :=
  isFinite value ∧ -2 ^ 31 ≤ toRat value ∧ toRat value < 2 ^ 31

/-- Where the conversion of the function gives the same word on both sides. -/
def conversionAgrees (H : Host) (function : BitVec 6) (value : Word) : Bool :=
  function = 0x0e ∨ function = 0x0f ∨ function = 0x24 ∨
    if fitsInt32 value then
      function = 0x0d ∨ ¬ (IsTie (toRat value) ∧ roundTrunc (toRat value) % 2 = 0)
    else H.castUndefined value = 0x80000000

/-! ### The helpers -/

theorem ofInt_inj {m n : ℤ} (hm : inInt32 m = true) (hn : inInt32 n = true) :
    BitVec.ofInt 32 m = BitVec.ofInt 32 n ↔ m = n := by
  obtain ⟨hm1, hm2⟩ := of_decide_eq_true hm
  obtain ⟨hn1, hn2⟩ := of_decide_eq_true hn
  refine ⟨fun h => ?_, fun h => by rw [h]⟩
  have h := congrArg BitVec.toInt h
  rwa [BitVec.toInt_ofInt_eq_self (by omega) (by omega) (by omega),
    BitVec.toInt_ofInt_eq_self (by omega) (by omega) (by omega)] at h

/-- Any rounding to a neighbour fits when the float does. -/
theorem inInt32_round_iff {round : ℚ → ℤ} (hint : ∀ n : ℤ, round n = n)
    (hmem : ∀ q, ⌊q⌋ ≤ round q ∧ round q ≤ ⌊q⌋ + 1) (value : Word) :
    (isFinite value ∧ inInt32 (round (toRat value))) ↔ fitsInt32 value = true := by
  simp only [fitsInt32, inInt32, decide_eq_true_eq, round_mem_range_iff hint hmem]

/-- Two checked roundings agree. -/
theorem checkedRound_eq_iff {round round' : ℚ → ℤ} (hint : ∀ n : ℤ, round n = n)
    (hmem : ∀ q, ⌊q⌋ ≤ round q ∧ round q ≤ ⌊q⌋ + 1) (hint' : ∀ n : ℤ, round' n = n)
    (hmem' : ∀ q, ⌊q⌋ ≤ round' q ∧ round' q ≤ ⌊q⌋ + 1) (H : Host) (value : Word) :
    (if isFinite value ∧ inInt32 (round (toRat value)) then BitVec.ofInt 32 (round (toRat value))
      else 0x80000000) = castRounded H value round' ↔
      if fitsInt32 value then round (toRat value) = round' (toRat value)
      else H.castUndefined value = 0x80000000 := by
  have h := inInt32_round_iff hint hmem value
  have h' := inInt32_round_iff hint' hmem' value
  unfold castRounded
  dsimp only
  by_cases hfit : fitsInt32 value = true
  · rw [if_pos (h.2 hfit), if_pos (h'.2 hfit), if_pos hfit]
    exact ofInt_inj (h.2 hfit).2 (h'.2 hfit).2
  · rw [if_neg (mt h.1 hfit), if_neg (mt h'.1 hfit), if_neg hfit]
    exact eq_comm

theorem roundedWord_even_eq_iff (H : Host) (value : Word) :
    roundedWord value 0 = castRounded H value roundTiesAway ↔
      if fitsInt32 value then ¬ (IsTie (toRat value) ∧ roundTrunc (toRat value) % 2 = 0)
      else H.castUndefined value = 0x80000000 := by
  rw [← roundTiesEven_eq_roundTiesAway_iff]
  exact checkedRound_eq_iff roundTiesEven_intCast roundTiesEven_mem roundTiesAway_intCast
    roundTiesAway_mem H value

theorem roundedWord_trunc_eq_iff (H : Host) (value : Word) :
    roundedWord value 1 = castRounded H value roundTrunc ↔
      if fitsInt32 value then True else H.castUndefined value = 0x80000000 := by
  rw [← eq_self (roundTrunc (toRat value))]
  exact checkedRound_eq_iff roundTrunc_intCast roundTrunc_mem roundTrunc_intCast roundTrunc_mem H value

/-- The rounding mode of `fcr31`. -/
theorem roundingMode_eq (x : Word) : (x &&& 3).setWidth 2 = x.extractLsb' 0 2 := by
  ext i hi
  have hmask : ∀ j : Fin 2, (3 : Word).getLsbD j.val = true := by decide
  have hbit := hmask ⟨i, hi⟩
  simp only [BitVec.getElem_setWidth, BitVec.getLsbD_and, hbit, Bool.and_true,
    BitVec.getElem_extractLsb', Nat.zero_add]

/-! ### One step -/

theorem convertsToWord_cases {w : Word} (hw : convertsToWord w = true) :
    opOf w = 0x11#6 ∧ rsOf w = 0x10#5 ∧ (functionOf w = 0x0c#6 ∨ functionOf w = 0x0d#6 ∨
      functionOf w = 0x0e#6 ∨ functionOf w = 0x0f#6 ∨ functionOf w = 0x24#6) := by
  have hall : ∀ f : BitVec 6, roundsToWord f = true →
      f = 0x0c#6 ∨ f = 0x0d#6 ∨ f = 0x0e#6 ∨ f = 0x0f#6 ∨ f = 0x24#6 := by decide
  obtain ⟨hop, hrs, hf⟩ := of_decide_eq_true hw
  exact ⟨hop, hrs, hall _ hf⟩

theorem plainWord_of_convertsToWord {w : Word} (hw : convertsToWord w = true) : PlainWord w := by
  obtain ⟨hop, hrs, hf⟩ := convertsToWord_cases hw
  have hvfpu : vfpuOpcodeSupported w = false := by simp only [vfpuOpcodeSupported, hop]; rfl
  have hc : classify w = .native "cop1" := by
    have hall : Classification.scalarFunction (functionOf w) = true := by
      rcases hf with hf | hf | hf | hf | hf <;> rw [hf] <;> decide
    simp only [classify, hvfpu, hop, Classification.cop1, hrs, hall]
    rfl
  exact ⟨by rw [hc]; rfl, by rw [hc]; rfl, fun h => by rw [hop] at h; exact absurd h.1 (by decide)⟩

/-- A conversion gives the same word translated and interpreted exactly in these cases: ceil.w.s,
floor.w.s and cvt.w.s always; where the float fits `int32_t`, trunc.w.s always and round.w.s unless
the float is a tie next to an even integer on the side of zero; where it does not fit, if the host's
cast gives 0x80000000. -/
theorem convertsToWord_agrees_iff (H : Host) (pc w currentPc preferredBase : Word) (relocated : Bool)
    (s : State) (hw : convertsToWord w = true) (halign : currentPc &&& 3 = 0)
    (hrun : s.stopReason = .running) (hword : HoldsWord s currentPc w) :
    ((emitInstruction pc w relocated preferredBase).exec H currentPc s).resetZero.fpr (shiftOf w) =
        (interpretAllegrex H s currentPc).2.fpr (shiftOf w) ↔
      conversionAgrees H (functionOf w) (s.fpr (rdOf w)) = true := by
  have hplain := plainWord_of_convertsToWord hw
  have hvalid : (decodeAllegrex w).valid = true := by
    simp only [DecodedInstruction.valid, show (decodeAllegrex w).lowering = .native from hplain.native]
    rfl
  rw [emitInstruction_plain hplain, interpretAllegrex_of_holds halign hrun hword hvalid,
    State.applyBranch_eq]
  obtain ⟨hop, hrs, hf⟩ := convertsToWord_cases hw
  set left := s.fpr (rdOf w)
  have hset : ∀ v v' : Word, ((s.setFpr (shiftOf w) v).fpr (shiftOf w) =
      (s.setFpr (shiftOf w) v').fpr (shiftOf w)) ↔ v = v' := by
    intro v v'
    rw [State.setFpr_fpr, State.setFpr_fpr, Function.update_self, Function.update_self]
  rcases hf with hf | hf | hf | hf | hf <;>
    simp only [emitNative, interpretBody, emitCop1, interpretCop1, hop, hrs, emitSingle,
      interpretSingle, hf]
  · refine (hset (roundedWord left 0) (castRounded H left roundTiesAway)).trans ?_
    rw [roundedWord_even_eq_iff]
    cases hfit : fitsInt32 left <;> simp [conversionAgrees, hfit, imp_iff_not_or]
  · refine (hset (roundedWord left 1) (castRounded H left roundTrunc)).trans ?_
    rw [roundedWord_trunc_eq_iff]
    cases hfit : fitsInt32 left <;> simp [conversionAgrees, hfit]
  · exact (hset (roundedWord left 2) (roundedWord left 2)).trans (by simp [conversionAgrees])
  · exact (hset (roundedWord left 3) (roundedWord left 3)).trans (by simp [conversionAgrees])
  · refine (hset (roundedWord left ((s.fcr31 &&& 3).setWidth 2))
      (roundedWord left (s.fcr31.extractLsb' 0 2))).trans ?_
    rw [roundingMode_eq]
    simp [conversionAgrees]

/-- `round.w.s $f0, $f0` of 1. -/
theorem convertsToWord_agrees_iff_one :
    let s := (State.ofImage 0x08804000 [0x4600000c]).setFpr 0 0x3f800000
    convertsToWord 0x4600000c = true ∧ HoldsWord s 0x08804000 0x4600000c ∧
      ((emitInstruction 0 0x4600000c false 0).exec zeroOperandHost 0x08804000 s).resetZero.fpr 0 =
        (interpretAllegrex zeroOperandHost s 0x08804000).2.fpr 0 := by
  have hw : convertsToWord 0x4600000c = true := by decide
  have hword : HoldsWord ((State.ofImage 0x08804000 [0x4600000c]).setFpr 0 0x3f800000) 0x08804000
      0x4600000c := ⟨rfl, rfl⟩
  exact ⟨hw, hword, (convertsToWord_agrees_iff zeroOperandHost 0 0x4600000c 0x08804000 0 false _ hw
    (by decide) rfl hword).2 (by decide +kernel)⟩

/-- `round.w.s $f0, $f0` of 0.5 is 0 translated and 1 interpreted. -/
theorem convertsToWord_half_ne :
    let s := (State.ofImage 0x08804000 [0x4600000c]).setFpr 0 0x3f000000
    toRat 0x3f000000 = 1 / 2 ∧ HoldsWord s 0x08804000 0x4600000c ∧
      ((emitInstruction 0 0x4600000c false 0).exec zeroOperandHost 0x08804000 s).resetZero.fpr 0 = 0 ∧
      (interpretAllegrex zeroOperandHost s 0x08804000).2.fpr 0 = 1 :=
  ⟨by decide +kernel, ⟨rfl, rfl⟩, by decide +kernel, by decide +kernel⟩

end Psprism
