import Mathlib.Tactic.IntervalCases
import Mathlib.Tactic.SplitIfs
import Psprism.Reloc

/-!
# Runs of the relocation applier

The memories `apply_psp_relocations` passes through, from the one it is given to the one it leaves.
How far a run gets, and which words it patches, depends on the relocations and the segments only.
A relocation of type R_MIPS_32 or R_MIPS_26 can change all four bytes of its word, R_MIPS_HI16 and
R_MIPS_LO16 the lower two, R_MIPS_NONE none: no other byte ever changes, and each of these does for
some guest base.
-/

namespace Psprism

/-! ### Bytes of words -/

theorem getLsbD_wordByte (value : Word) (j : Nat) {i : Nat} (hi : i < 8) :
    (wordByte value j).getLsbD i = value.getLsbD (8 * j + i) := by
  simp [wordByte, hi]

/-- Where the bits of a byte of a word come from. -/
theorem getLsbD_byteShift (b : Byte) (k : Nat) {j i : Nat} (hj : j < 4) (hi : i < 8) :
    ((b.setWidth 32 : Word) <<< (8 * k)).getLsbD (8 * j + i) = (decide (k = j) && b.getLsbD i) := by
  rw [BitVec.getLsbD_shiftLeft, BitVec.getLsbD_setWidth]
  rcases lt_trichotomy k j with h | rfl | h
  · rw [BitVec.getLsbD_of_ge b _ (by omega), Bool.and_false, Bool.and_false,
      decide_eq_false (Nat.ne_of_lt h), Bool.false_and]
  · rw [decide_eq_true (by omega : 8 * k + i < 32), decide_eq_false (by omega : ¬ 8 * k + i < 8 * k),
      Nat.add_sub_cancel_left, decide_eq_true (by omega : i < 32), decide_eq_true rfl]
    rfl
  · rw [decide_eq_true (by omega : 8 * j + i < 8 * k), decide_eq_false (Nat.ne_of_gt h)]
    simp

theorem wordByte_readU32 (memory : Bytes) (offset : Nat) {j : Nat} (hj : j < 4) :
    wordByte (readU32 memory offset) j = memory (offset + j) := by
  ext i hi
  have h0 := getLsbD_byteShift (memory offset) 0 hj hi
  have h1 := getLsbD_byteShift (memory (offset + 1)) 1 hj hi
  have h2 := getLsbD_byteShift (memory (offset + 2)) 2 hj hi
  have h3 := getLsbD_byteShift (memory (offset + 3)) 3 hj hi
  simp only [Nat.mul_zero, BitVec.shiftLeft_zero, Nat.reduceMul] at h0 h1 h2 h3
  rw [← BitVec.getLsbD_eq_getElem, ← BitVec.getLsbD_eq_getElem, getLsbD_wordByte _ _ hi, readU32]
  simp only [BitVec.getLsbD_or, h0, h1, h2, h3]
  interval_cases j <;> simp

theorem writeU32_apply (memory : Bytes) (offset : Nat) (value : Word) {j : Nat} (hj : j < 4) :
    writeU32 memory offset value (offset + j) = wordByte value j := by
  interval_cases j <;> simp [writeU32, wordByte]

theorem writeU32_of_not_mem (memory : Bytes) (offset : Nat) (value : Word) {i : Nat}
    (hi : ∀ j < 4, i ≠ offset + j) : writeU32 memory offset value i = memory i := by
  have h0 : i ≠ offset := hi 0 (by decide)
  simp only [writeU32, if_neg h0, if_neg (hi 1 (by decide)), if_neg (hi 2 (by decide)),
    if_neg (hi 3 (by decide))]

/-- Words that agree on their bytes. -/
theorem readU32_congr {m m' : Bytes} {offset : Nat} (h : ∀ j < 4, m (offset + j) = m' (offset + j)) :
    readU32 m offset = readU32 m' offset := by
  have h0 : m offset = m' offset := h 0 (by decide)
  simp only [readU32, h0, h 1 (by decide), h 2 (by decide), h 3 (by decide)]

theorem eq_of_wordByte {a b : Word} (h : ∀ j < 4, wordByte a j = wordByte b j) : a = b := by
  ext i hi
  have hbit := congrArg (fun x : Byte => x.getLsbD (i % 8)) (h (i / 8) (by omega))
  simp only [getLsbD_wordByte _ _ (Nat.mod_lt i (show 0 < 8 by decide)), Nat.div_add_mod] at hbit
  exact hbit

theorem readU32_writeU32 (memory : Bytes) (offset : Nat) (value : Word) :
    readU32 (writeU32 memory offset value) offset = value :=
  eq_of_wordByte fun j hj => by rw [wordByte_readU32 _ _ hj, writeU32_apply _ _ _ hj]

/-! ### What a patch changes -/

/-- How many low bytes of its word a relocation can change. -/
def changedBytes (type : Byte) : Nat :=
  if type = 2 ∨ type = 4 then 4 else if type = 5 ∨ type = 6 then 2 else 0

/-- A run of ones as a mask. -/
theorem getLsbD_mask {mask : Word} {lo hi : Nat}
    (h : ∀ j : Fin 32, mask.getLsbD j = decide (lo ≤ j.val ∧ j.val < hi)) (hhi : hi ≤ 32) (i : Nat) :
    mask.getLsbD i = decide (lo ≤ i ∧ i < hi) := by
  by_cases hi32 : i < 32
  · exact h ⟨i, hi32⟩
  · rw [BitVec.getLsbD_of_ge _ _ (by omega)]
    exact (decide_eq_false (by omega)).symm

theorem getLsbD_lowHalf (i : Nat) : (0xffff : Word).getLsbD i = decide (0 ≤ i ∧ i < 16) :=
  getLsbD_mask (by decide) (by decide) i

theorem getLsbD_highHalf (i : Nat) : (0xffff0000 : Word).getLsbD i = decide (16 ≤ i ∧ i < 32) :=
  getLsbD_mask (by decide) (by decide) i

theorem getLsbD_targetField (i : Nat) : (0x03ffffff : Word).getLsbD i = decide (0 ≤ i ∧ i < 26) :=
  getLsbD_mask (by decide) (by decide) i

theorem getLsbD_opcodeField (i : Nat) : (0xfc000000 : Word).getLsbD i = decide (26 ≤ i ∧ i < 32) :=
  getLsbD_mask (by decide) (by decide) i

/-- The upper half of the word, with something else below. -/
theorem wordByte_replaceLow (word x : Word) {j : Nat} (hj : 2 ≤ j) (hx : ∀ i, 16 ≤ i → x.getLsbD i = false) :
    wordByte ((word &&& 0xffff0000) ||| x) j = wordByte word j := by
  ext i hi
  rw [← BitVec.getLsbD_eq_getElem, ← BitVec.getLsbD_eq_getElem, getLsbD_wordByte _ _ hi,
    getLsbD_wordByte _ _ hi, BitVec.getLsbD_or, BitVec.getLsbD_and, getLsbD_highHalf,
    hx _ (by omega), Bool.or_false]
  by_cases h32 : 8 * j + i < 32
  · rw [decide_eq_true ⟨by omega, h32⟩, Bool.and_true]
  · rw [BitVec.getLsbD_of_ge word _ (by omega), Bool.false_and]

theorem patchedWord_keeps {type : Byte} {word relocateTo low word' : Word}
    (h : patchedWord type word relocateTo (.ok low) = .ok word') {j : Nat} (hj4 : j < 4)
    (hj : changedBytes type ≤ j) : wordByte word' j = wordByte word j := by
  unfold patchedWord at h
  split at h
  · cases h; rfl
  · exact absurd hj (by simp [changedBytes]; omega)
  · exact absurd hj (by simp [changedBytes]; omega)
  · cases h
    exact wordByte_replaceLow _ _ (by simpa [changedBytes] using hj) fun i hi => by
      rw [BitVec.getLsbD_ushiftRight, BitVec.getLsbD_of_ge _ _ (by omega)]
  · cases h
    exact wordByte_replaceLow _ _ (by simpa [changedBytes] using hj) fun i hi => by
      rw [BitVec.getLsbD_and, getLsbD_lowHalf, decide_eq_false (by omega), Bool.and_false]
  · cases h

/-- Adding a power of two flips its bit. -/
theorem getLsbD_add_twoPow (x : Word) {i : Nat} (hi : i < 32) :
    (x + BitVec.twoPow 32 i).getLsbD i = !x.getLsbD i := by
  have h := Nat.testBit_two_pow_add_eq x.toNat i
  simp only [BitVec.getLsbD, BitVec.toNat_add, BitVec.toNat_twoPow]
  rw [Nat.add_mod_mod, Nat.testBit_mod_two_pow, Nat.add_comm, h, decide_eq_true hi, Bool.true_and]

/-- A sign-extended halfword and the rounding of HI16 reach no upper bit. -/
theorem getLsbD_roundedLow (low : Word) {i : Nat} (hi : 16 ≤ i) :
    ((low.setWidth 16).signExtend 32 + 0x8000).getLsbD i = false := by
  have hx := (low.setWidth 16).isLt
  have hlt : ((low.setWidth 16).signExtend 32 + 0x8000 : Word).toNat < 2 ^ 16 := by
    rw [BitVec.toNat_add, BitVec.toNat_signExtend, BitVec.msb_eq_decide, BitVec.toNat_setWidth]
    have h8 : (0x8000 : Word).toNat = 2 ^ 15 := rfl
    rw [h8]
    by_cases hmsb : 2 ^ (16 - 1) ≤ (low.setWidth 16).toNat
    · rw [decide_eq_true hmsb, if_pos rfl]
      omega
    · rw [decide_eq_false hmsb, if_neg (by decide)]
      omega
  exact Nat.testBit_lt_two_pow (hlt.trans_le (Nat.pow_le_pow_right (by decide) hi))

/-- The upper half of a sum with a halfword that has been moved there. -/
theorem getLsbD_high_add (word u : Word) (hu : ∀ i, 16 ≤ i → u.getLsbD i = false) {i : Nat} (hi : i < 16) :
    (((word &&& 0xffff) <<< 16) + u).getLsbD (16 + i) = word.getLsbD i := by
  have hdisj : ((word &&& 0xffff) <<< 16) &&& u = 0#32 := by
    ext k hk
    rw [← BitVec.getLsbD_eq_getElem, ← BitVec.getLsbD_eq_getElem, BitVec.getLsbD_and,
      BitVec.getLsbD_shiftLeft, BitVec.getLsbD_zero]
    by_cases h16 : k < 16
    · rw [decide_eq_true h16]; simp
    · rw [hu k (by omega), Bool.and_false]
  rw [BitVec.add_eq_or_of_and_eq_zero _ _ hdisj, BitVec.getLsbD_or, hu _ (by omega), Bool.or_false,
    BitVec.getLsbD_shiftLeft, Nat.add_sub_cancel_left, BitVec.getLsbD_and, getLsbD_lowHalf,
    decide_eq_true (by omega : 16 + i < 32), decide_eq_false (by omega : ¬ 16 + i < 16),
    decide_eq_true (by omega : 0 ≤ i ∧ i < 16)]
  simp

/-- R_MIPS_26 on the base that flips a bit of the target field. -/
theorem getLsbD_targetField_flip (word : Word) {i : Nat} (hi : i < 26) :
    ((word &&& 0xfc000000) ||| (((word &&& 0x03ffffff) + BitVec.twoPow 32 i) &&& 0x03ffffff)).getLsbD i =
      !word.getLsbD i := by
  rw [BitVec.getLsbD_or, BitVec.getLsbD_and, getLsbD_opcodeField, decide_eq_false (by omega),
    Bool.and_false, Bool.false_or, BitVec.getLsbD_and, getLsbD_targetField, decide_eq_true ⟨by omega, hi⟩,
    Bool.and_true, getLsbD_add_twoPow _ (by omega), BitVec.getLsbD_and, getLsbD_targetField,
    decide_eq_true ⟨by omega, hi⟩, Bool.and_true]

/-- R_MIPS_HI16 on the base that flips a bit, whatever the low half is. -/
theorem getLsbD_hi16_flip (word low : Word) {i : Nat} (hi : i < 16) :
    ((word &&& (0xffff0000 : Word)) ||| ((((word &&& 0xffff) <<< 16) +
      (low.setWidth 16).signExtend 32 + BitVec.twoPow 32 (16 + i) + 0x8000) >>> 16)).getLsbD i =
      !word.getLsbD i := by
  have hsum : ∀ a b c d : Word, a + b + c + d = a + (b + d) + c := fun a b c d => by
    rw [BitVec.add_assoc (a + b) c d, BitVec.add_comm c d, ← BitVec.add_assoc, BitVec.add_assoc a b d]
  rw [BitVec.getLsbD_or, BitVec.getLsbD_and, getLsbD_highHalf, decide_eq_false (by omega),
    Bool.and_false, Bool.false_or, BitVec.getLsbD_ushiftRight, hsum, getLsbD_add_twoPow _ (by omega),
    getLsbD_high_add word _ (fun i hi => getLsbD_roundedLow low hi) hi]

/-- R_MIPS_LO16 on the base that flips a bit. -/
theorem getLsbD_lo16_flip (word : Word) {i : Nat} (hi : i < 16) :
    ((word &&& 0xffff0000) ||| (((word.setWidth 16).signExtend 32 + BitVec.twoPow 32 i) &&&
      0xffff)).getLsbD i = !word.getLsbD i := by
  rw [BitVec.getLsbD_or, BitVec.getLsbD_and, getLsbD_highHalf, decide_eq_false (by omega),
    Bool.and_false, Bool.false_or, BitVec.getLsbD_and, getLsbD_lowHalf, decide_eq_true ⟨by omega, hi⟩,
    Bool.and_true, getLsbD_add_twoPow _ (by omega), BitVec.getLsbD_signExtend, if_pos hi,
    decide_eq_true (by omega : i < 32), Bool.true_and, BitVec.getLsbD_setWidth, decide_eq_true hi,
    Bool.true_and]

theorem twoPow_shift : ∀ j < 4, (BitVec.twoPow 32 (8 * j) <<< 2) >>> 2 = BitVec.twoPow 32 (8 * j) := by
  decide

theorem changedBytes_cases {type : Byte} {j : Nat} (hj : j < changedBytes type) :
    (type = 2#8 ∧ j < 4) ∨ (type = 4#8 ∧ j < 4) ∨ (type = 5#8 ∧ j < 2) ∨ (type = 6#8 ∧ j < 2) := by
  unfold changedBytes at hj
  split_ifs at hj with h24 h56
  · rcases h24 with h | h
    · exact .inl ⟨h, hj⟩
    · exact .inr (.inl ⟨h, hj⟩)
  · rcases h56 with h | h
    · exact .inr (.inr (.inl ⟨h, hj⟩))
    · exact .inr (.inr (.inr ⟨h, hj⟩))
  · exact absurd hj (Nat.not_lt_zero j)

/-- For every byte a relocation can change there is a base for which it does, in every word. -/
theorem patchedWord_flips {type : Byte} {j : Nat} (hj : j < changedBytes type) :
    ∃ relocateTo, ∀ word low word' : Word, patchedWord type word relocateTo (.ok low) = .ok word' →
      wordByte word' j ≠ wordByte word j := by
  -- one relocation address flips bit `8 * j`
  suffices hbit : ∃ relocateTo, ∀ word low word' : Word,
      patchedWord type word relocateTo (.ok low) = .ok word' →
        word'.getLsbD (8 * j) = !word.getLsbD (8 * j) by
    obtain ⟨relocateTo, hbit⟩ := hbit
    refine ⟨relocateTo, fun word low word' h heq => ?_⟩
    have h0 := congrArg (fun b : Byte => b.getLsbD 0) heq
    simp only [getLsbD_wordByte _ j (show 0 < 8 by decide), Nat.add_zero, hbit word low word' h] at h0
    exact absurd h0 (by cases word.getLsbD (8 * j) <;> decide)
  rcases changedBytes_cases hj with ⟨rfl, hj⟩ | ⟨rfl, hj⟩ | ⟨rfl, hj⟩ | ⟨rfl, hj⟩
  · refine ⟨BitVec.twoPow 32 (8 * j), fun word low word' h => ?_⟩
    rw [← Except.ok.inj h]
    exact getLsbD_add_twoPow word (by omega)
  · refine ⟨BitVec.twoPow 32 (8 * j) <<< 2, fun word low word' h => ?_⟩
    rw [← Except.ok.inj h, twoPow_shift j hj]
    exact getLsbD_targetField_flip word (by omega)
  · refine ⟨BitVec.twoPow 32 (16 + 8 * j), fun word low word' h => ?_⟩
    rw [← Except.ok.inj h]
    exact getLsbD_hi16_flip word low (by omega)
  · refine ⟨BitVec.twoPow 32 (8 * j), fun word low word' h => ?_⟩
    rw [← Except.ok.inj h]
    exact getLsbD_lo16_flip word (by omega)

/-! ### Runs -/

section
variable (sizeBits memorySize : Nat) (guestBase : Word) (segments : List PspLoadSegment)

/-- Where the LO16 lookahead of a HI16 reads. -/
def lowOffset (targetSegment : Byte) : List Relocation → Option Nat
  | [] => none
  | low :: rest =>
    if low.type ≠ 6 ∨ low.targetSegment ≠ targetSegment then lowOffset targetSegment rest
    else relocationWordOffset sizeBits low segments memorySize

/-- The offset of the word that is patched, when the applier gets past the relocation. -/
def patchOffset (r : Relocation) (rest : List Relocation) : Option Nat :=
  match findSegment segments r.targetSegment, relocationWordOffset sizeBits r segments memorySize with
  | some _, some offset =>
    if r.type = 0 ∨ r.type = 2 ∨ r.type = 4 ∨ r.type = 6 ∨
        (r.type = 5 ∧ (lowOffset sizeBits memorySize segments r.targetSegment rest).isSome) then
      some offset
    else none
  | _, _ => none

/-- The relocations the applier gets past, each with the offset of its word. -/
def reachedRelocations : List Relocation → List (Relocation × Nat)
  | [] => []
  | r :: rest =>
    match patchOffset sizeBits memorySize segments r rest with
    | none => []
    | some offset => (r, offset) :: reachedRelocations rest

/-- One round of the applier's loop. -/
def relocationStep (memory : Bytes) (r : Relocation) (rest : List Relocation) :
    Except RelocationResult Bytes :=
  match findSegment segments r.targetSegment with
  | none => .error .invalidSegment
  | some target =>
    match relocationWordOffset sizeBits r segments memorySize with
    | none => .error .invalidPatch
    | some patchOffset =>
      (patchedWord r.type (readU32 memory patchOffset) (guestBase + target.address)
        (lowWord sizeBits memorySize segments r.targetSegment memory rest)).map
        (writeU32 memory patchOffset)

/-- The memories of a run, the first and the last included. -/
def relocationRun (memory : Bytes) : List Relocation → List Bytes
  | [] => [memory]
  | r :: rest =>
    match relocationStep sizeBits memorySize guestBase segments memory r rest with
    | .error _ => [memory]
    | .ok memory' => memory :: relocationRun memory' rest

variable {sizeBits memorySize guestBase segments}

theorem applyRelocations_cons (memory : Bytes) (r : Relocation) (rest : List Relocation) :
    applyRelocations sizeBits memorySize guestBase segments memory (r :: rest) =
      match relocationStep sizeBits memorySize guestBase segments memory r rest with
      | .error e => (e, memory)
      | .ok memory' => applyRelocations sizeBits memorySize guestBase segments memory' rest := by
  rw [applyRelocations, relocationStep]
  cases findSegment segments r.targetSegment with
  | none => rfl
  | some target =>
    cases relocationWordOffset sizeBits r segments memorySize with
    | none => rfl
    | some patchOffset =>
      dsimp only
      cases patchedWord r.type (readU32 memory patchOffset) (guestBase + target.address)
        (lowWord sizeBits memorySize segments r.targetSegment memory rest) <;> rfl

theorem mem_relocationRun_self (memory : Bytes) (rs : List Relocation) :
    memory ∈ relocationRun sizeBits memorySize guestBase segments memory rs := by
  cases rs with
  | nil => exact List.mem_singleton_self _
  | cons r rest =>
    unfold relocationRun
    split
    · exact List.mem_singleton_self _
    · exact List.mem_cons_self ..

/-- The memory the applier leaves ends the run. -/
theorem applyRelocations_mem_relocationRun (memory : Bytes) (rs : List Relocation) :
    (applyRelocations sizeBits memorySize guestBase segments memory rs).2 ∈
      relocationRun sizeBits memorySize guestBase segments memory rs := by
  induction rs generalizing memory with
  | nil => exact List.mem_singleton_self _
  | cons r rest ih =>
    rw [applyRelocations_cons, relocationRun]
    cases relocationStep sizeBits memorySize guestBase segments memory r rest with
    | error e => exact List.mem_singleton_self _
    | ok memory' => exact List.mem_cons_of_mem _ (ih memory')

theorem lowWord_of_some {targetSegment : Byte} {rs : List Relocation} {offset : Nat}
    (h : lowOffset sizeBits memorySize segments targetSegment rs = some offset) (memory : Bytes) :
    lowWord sizeBits memorySize segments targetSegment memory rs = .ok (readU32 memory offset) := by
  induction rs with
  | nil => cases h
  | cons low rest ih =>
    unfold lowOffset at h
    unfold lowWord
    split at h
    · rename_i hskip
      rw [if_pos hskip]
      exact ih h
    · rename_i hskip
      rw [if_neg hskip, h]

theorem lowWord_of_none {targetSegment : Byte} {rs : List Relocation}
    (h : lowOffset sizeBits memorySize segments targetSegment rs = none) (memory : Bytes) :
    ∃ e, e ≠ .success ∧
      lowWord sizeBits memorySize segments targetSegment memory rs = .error e := by
  induction rs with
  | nil => exact ⟨.missingLo16, by decide, rfl⟩
  | cons low rest ih =>
    unfold lowOffset at h
    unfold lowWord
    split at h
    · rename_i hskip
      rw [if_pos hskip]
      exact ih h
    · rename_i hskip
      rw [if_neg hskip, h]
      exact ⟨.invalidPatch, by decide, rfl⟩

/-- A round that is got past writes one patched word. -/
theorem relocationStep_of_some {r : Relocation} {rest : List Relocation} {offset : Nat}
    (h : patchOffset sizeBits memorySize segments r rest = some offset) :
    ∃ target, findSegment segments r.targetSegment = some target ∧ ∀ guestBase memory, ∃ low word,
      patchedWord r.type (readU32 memory offset) (guestBase + target.address) (.ok low) = .ok word ∧
        relocationStep sizeBits memorySize guestBase segments memory r rest =
          .ok (writeU32 memory offset word) := by
  unfold patchOffset at h
  split at h
  case h_2 => cases h
  rename_i target offset' htarget hoffset
  split at h
  case isFalse => cases h
  rename_i htype
  cases h
  refine ⟨target, htarget, fun guestBase memory => ?_⟩
  simp only [relocationStep, htarget, hoffset]
  rcases htype with ht | ht | ht | ht | ⟨ht, hlow⟩
  iterate 4 exact ⟨0, _, by rw [ht]; rfl, by rw [ht]; rfl⟩
  · obtain ⟨low, hlow⟩ := Option.isSome_iff_exists.1 hlow
    rw [lowWord_of_some hlow, ht]
    exact ⟨readU32 memory low, _, rfl, rfl⟩

theorem relocationStep_of_none {r : Relocation} {rest : List Relocation}
    (h : patchOffset sizeBits memorySize segments r rest = none) (guestBase : Word) (memory : Bytes) :
    ∃ e, e ≠ .success ∧
      relocationStep sizeBits memorySize guestBase segments memory r rest = .error e := by
  unfold relocationStep
  cases htarget : findSegment segments r.targetSegment with
  | none => exact ⟨.invalidSegment, by decide, rfl⟩
  | some target =>
    cases hoffset : relocationWordOffset sizeBits r segments memorySize with
    | none => exact ⟨.invalidPatch, by decide, rfl⟩
    | some offset =>
      simp only [patchOffset, htarget, hoffset] at h
      split at h
      · cases h
      · rename_i htype
        simp only [not_or] at htype
        obtain ⟨h0, h2, h4, h6, h5⟩ := htype
        dsimp only
        unfold patchedWord
        split
        · exact absurd ‹r.type = _› h0
        · exact absurd ‹r.type = _› h2
        · exact absurd ‹r.type = _› h4
        · rename_i ht
          have hlow : lowOffset sizeBits memorySize segments r.targetSegment rest = none := by
            simpa [ht] using h5
          obtain ⟨e, hne, he⟩ := lowWord_of_none hlow memory
          rw [he]
          exact ⟨e, hne, rfl⟩
        · exact absurd ‹r.type = _› h6
        · exact ⟨.unsupportedType, by decide, rfl⟩

/-- Bytes that no relocation can change keep their value throughout the run. -/
theorem relocationRun_keeps {rs : List Relocation} {i : Nat}
    (h : ∀ p ∈ reachedRelocations sizeBits memorySize segments rs, ∀ j < changedBytes p.1.type,
      i ≠ p.2 + j) {memory m : Bytes}
    (hm : m ∈ relocationRun sizeBits memorySize guestBase segments memory rs) : m i = memory i := by
  induction rs generalizing memory with
  | nil =>
    rw [List.mem_singleton.1 hm]
  | cons r rest ih =>
    unfold relocationRun at hm
    unfold reachedRelocations at h
    cases hp : patchOffset sizeBits memorySize segments r rest with
    | none =>
      obtain ⟨e, -, he⟩ := relocationStep_of_none hp guestBase memory
      rw [he] at hm
      rw [List.mem_singleton.1 hm]
    | some offset =>
      obtain ⟨target, -, hstep⟩ := relocationStep_of_some hp
      obtain ⟨low, word, hword, hstep⟩ := hstep guestBase memory
      rw [hp] at h
      rw [hstep] at hm
      rcases List.mem_cons.1 hm with rfl | hm
      · rfl
      · rw [ih (fun p hmem => h p (List.mem_cons_of_mem _ hmem)) hm]
        have hhead := h (r, offset) (List.mem_cons_self ..)
        -- a byte of the patched word that the type does not reach, or a byte outside it
        by_cases hin : ∃ j < 4, i = offset + j
        · obtain ⟨j, hj, rfl⟩ := hin
          have hle : changedBytes r.type ≤ j := not_lt.1 fun hlt => hhead j hlt rfl
          rw [writeU32_apply _ _ _ hj, patchedWord_keeps hword hj hle, wordByte_readU32 _ _ hj]
        · exact writeU32_of_not_mem _ _ _ fun j hj heq => hin ⟨j, hj, heq⟩

/-- Each byte a relocation can change does change, for some guest base. -/
theorem relocationRun_flips {rs : List Relocation} {r : Relocation} {offset : Nat}
    (hr : (r, offset) ∈ reachedRelocations sizeBits memorySize segments rs) {j : Nat}
    (hj : j < changedBytes r.type) :
    ∃ guestBase, ∀ memory, ∃ m m' : Bytes,
      m ∈ relocationRun sizeBits memorySize guestBase segments memory rs ∧
      m' ∈ relocationRun sizeBits memorySize guestBase segments memory rs ∧
        m' (offset + j) ≠ m (offset + j) := by
  induction rs with
  | nil => cases hr
  | cons r' rest ih =>
    unfold reachedRelocations at hr
    cases hp : patchOffset sizeBits memorySize segments r' rest with
    | none => rw [hp] at hr; cases hr
    | some offset' =>
      rw [hp] at hr
      obtain ⟨target, htarget, hstep⟩ := relocationStep_of_some hp
      rcases List.mem_cons.1 hr with heq | hr
      · cases heq
        obtain ⟨relocateTo, hflip⟩ := patchedWord_flips hj
        refine ⟨relocateTo - target.address, fun memory => ?_⟩
        obtain ⟨low, word, hword, hstep⟩ := hstep (relocateTo - target.address) memory
        rw [BitVec.sub_add_cancel] at hword
        refine ⟨memory, writeU32 memory offset word, mem_relocationRun_self _ _, ?_, ?_⟩
        · rw [relocationRun, hstep]
          exact List.mem_cons_of_mem _ (mem_relocationRun_self _ _)
        · have hj4 : j < 4 := by
            rcases changedBytes_cases hj with ⟨-, h⟩ | ⟨-, h⟩ | ⟨-, h⟩ | ⟨-, h⟩ <;> omega
          rw [writeU32_apply _ _ _ hj4, ← wordByte_readU32 memory _ hj4]
          exact hflip _ _ _ hword
      · obtain ⟨guestBase, hrest⟩ := ih hr
        refine ⟨guestBase, fun memory => ?_⟩
        obtain ⟨low, word, -, hstep⟩ := hstep guestBase memory
        obtain ⟨m, m', hm, hm', hne⟩ := hrest (writeU32 memory offset' word)
        refine ⟨m, m', ?_, ?_, hne⟩ <;> rw [relocationRun, hstep]
        · exact List.mem_cons_of_mem _ hm
        · exact List.mem_cons_of_mem _ hm'

/-! ### A single word -/

/-- A successful run gets past its first relocation. -/
theorem patchOffset_of_success {r : Relocation} {rest : List Relocation} {memory m : Bytes}
    (h : applyRelocations sizeBits memorySize guestBase segments memory (r :: rest) = (.success, m)) :
    ∃ offset, patchOffset sizeBits memorySize segments r rest = some offset := by
  cases hp : patchOffset sizeBits memorySize segments r rest with
  | some offset => exact ⟨offset, rfl⟩
  | none =>
    obtain ⟨e, hne, he⟩ := relocationStep_of_none hp guestBase memory
    rw [applyRelocations_cons, he] at h
    exact absurd (congrArg Prod.fst h) hne

theorem relocationWordOffset_of_patchOffset {r : Relocation} {rest : List Relocation} {offset : Nat}
    (h : patchOffset sizeBits memorySize segments r rest = some offset) :
    relocationWordOffset sizeBits r segments memorySize = some offset := by
  unfold patchOffset at h
  split at h
  · rename_i hoffset
    split at h
    · rw [hoffset, h]
    · cases h
  · cases h

/-- The relocations whose word overlaps the word at an offset. -/
def patchesOf (sizeBits memorySize : Nat) (segments : List PspLoadSegment) (offset : Nat)
    (rs : List Relocation) : List Relocation :=
  rs.filter fun r =>
    match relocationWordOffset sizeBits r segments memorySize with
    | none => false
    | some patch => patch < offset + 4 ∧ offset < patch + 4

theorem relocationWordOffset_of_success {rs : List Relocation} {memory m : Bytes}
    (h : applyRelocations sizeBits memorySize guestBase segments memory rs = (.success, m)) :
    ∀ r ∈ rs, ∃ offset, relocationWordOffset sizeBits r segments memorySize = some offset := by
  induction rs generalizing memory with
  | nil => exact fun r hr => absurd hr List.not_mem_nil
  | cons r rest ih =>
    obtain ⟨offset, hp⟩ := patchOffset_of_success h
    obtain ⟨target, -, hstep⟩ := relocationStep_of_some hp
    obtain ⟨low, word, -, hstep⟩ := hstep guestBase memory
    rw [applyRelocations_cons, hstep] at h
    intro r' hr'
    rcases List.mem_cons.1 hr' with rfl | hr'
    · exact ⟨offset, relocationWordOffset_of_patchOffset hp⟩
    · exact ih h r' hr'

/-- A word that a run's relocations patch at most once. -/
theorem readU32_of_success {rs : List Relocation} {memory m : Bytes} {offset : Nat}
    (h : applyRelocations sizeBits memorySize guestBase segments memory rs = (.success, m)) :
    (patchesOf sizeBits memorySize segments offset rs = [] → readU32 m offset = readU32 memory offset) ∧
    ∀ r, patchesOf sizeBits memorySize segments offset rs = [r] →
      relocationWordOffset sizeBits r segments memorySize = some offset →
      ∃ target low, findSegment segments r.targetSegment = some target ∧
        patchedWord r.type (readU32 memory offset) (guestBase + target.address) (.ok low) =
          .ok (readU32 m offset) := by
  induction rs generalizing memory with
  | nil =>
    cases h
    refine ⟨fun _ => rfl, fun r hr _ => ?_⟩
    cases hr
  | cons r' rest ih =>
    obtain ⟨offset', hp⟩ := patchOffset_of_success h
    obtain ⟨target, htarget, hstep⟩ := relocationStep_of_some hp
    obtain ⟨low, word, hword, hstep⟩ := hstep guestBase memory
    rw [applyRelocations_cons, hstep] at h
    obtain ⟨ihnone, ihone⟩ := ih h
    have hoffset := relocationWordOffset_of_patchOffset hp
    unfold patchesOf at ihnone ihone ⊢
    by_cases hover : offset' < offset + 4 ∧ offset < offset' + 4
    · rw [List.filter_cons_of_pos (by rw [hoffset]; exact decide_eq_true hover)]
      refine ⟨fun hnil => absurd hnil (List.cons_ne_nil _ _), fun r hr hr' => ?_⟩
      obtain ⟨rfl, hrest⟩ := List.cons.inj hr
      rw [hoffset] at hr'
      cases hr'
      refine ⟨target, low, htarget, ?_⟩
      rw [hword, ihnone hrest, readU32_writeU32]
    · rw [List.filter_cons_of_neg (by rw [hoffset]; simpa using hover)]
      have hkeep : readU32 (writeU32 memory offset' word) offset = readU32 memory offset :=
        readU32_congr fun j hj => writeU32_of_not_mem _ _ _ fun j' hj' heq => hover ⟨by omega, by omega⟩
      rw [hkeep] at ihnone
      exact ⟨ihnone, fun r hr hr' => by simpa only [hkeep] using ihone r hr hr'⟩

end

end Psprism
