import Psprism.RelocRun

/-!
# HI16 and LO16 pairs

A HI16 rounds the address up before it drops the low half, since the LO16 behind it is sign-extended
when the two are put together again. The LO16 it looks ahead for comes later in the list, so when the
words of a list lie apart the lookahead reads it before it is patched, for every HI16 that shares it.
-/

namespace Psprism

/-! ### The address of a pair -/

/-- The address that the immediates of a HI16 and a LO16 word make. -/
def joinedAddress (high low : Word) : Word :=
  ((high &&& (0xffff : Word)) <<< 16) + (low.setWidth 16).signExtend 32

/-- What a HI16 is patched to, as an immediate: the upper half of the address, rounded. -/
theorem lowHalf_hi16 (word rounded : Word) :
    ((word &&& (0xffff0000 : Word)) ||| (rounded >>> 16)) &&& (0xffff : Word) = rounded >>> 16 := by
  ext i hi
  rw [← BitVec.getLsbD_eq_getElem, ← BitVec.getLsbD_eq_getElem, BitVec.getLsbD_and, BitVec.getLsbD_or,
    BitVec.getLsbD_and, getLsbD_highHalf, getLsbD_lowHalf, BitVec.getLsbD_ushiftRight]
  by_cases h : i < 16
  · simp [h, Nat.not_le.2 h]
  · rw [BitVec.getLsbD_of_ge rounded _ (by omega)]
    simp [h]

/-- A LO16's immediate behind its patch. -/
theorem setWidth_lo16 (word x : Word) :
    ((word &&& (0xffff0000 : Word)) ||| (x &&& (0xffff : Word))).setWidth 16 = x.setWidth 16 := by
  ext i hi
  rw [← BitVec.getLsbD_eq_getElem, ← BitVec.getLsbD_eq_getElem, BitVec.getLsbD_setWidth, BitVec.getLsbD_setWidth,
    BitVec.getLsbD_or, BitVec.getLsbD_and, BitVec.getLsbD_and, getLsbD_highHalf, getLsbD_lowHalf]
  simp [hi, Nat.not_le.2 hi]

/-- Sign extension takes back the borrow that the rounding adds. -/
theorem rounded_signExtend (full : Word) :
    (((full + 0x8000) >>> 16) <<< 16) + (full.setWidth 16).signExtend 32 = full := by
  have hlt := full.isLt
  have h8 : (0x8000 : Word).toNat = 2 ^ 15 := rfl
  apply BitVec.eq_of_toNat_eq
  rw [BitVec.toNat_add, BitVec.toNat_shiftLeft, BitVec.toNat_ushiftRight, BitVec.toNat_add, BitVec.toNat_signExtend,
    BitVec.msb_eq_decide, BitVec.toNat_setWidth, BitVec.toNat_setWidth, h8, Nat.shiftLeft_eq, Nat.shiftRight_eq_div_pow]
  by_cases hmsb : 2 ^ (16 - 1) ≤ full.toNat % 2 ^ 16
  · rw [decide_eq_true hmsb, if_pos rfl]
    omega
  · rw [decide_eq_false hmsb, if_neg (by decide)]
    omega

/-- The two patches of a pair, with the LO16 word looked ahead at before it is patched. -/
theorem joinedAddress_patched {high low relocateTo high' low' : Word}
    (hhigh : patchedWord 5 high relocateTo (.ok low) = .ok high') {lookahead : Except RelocationResult Word}
    (hlow : patchedWord 6 low relocateTo lookahead = .ok low') :
    joinedAddress high' low' = joinedAddress high low + relocateTo := by
  rw [← Except.ok.inj hhigh, ← Except.ok.inj hlow]
  have hlowHalf : ((low.setWidth 16).signExtend 32 + relocateTo).setWidth 16 =
      (joinedAddress high low + relocateTo).setWidth 16 := by
    -- the upper half of the address is a multiple of 2 ^ 16
    apply BitVec.eq_of_toNat_eq
    simp only [joinedAddress, BitVec.toNat_setWidth, BitVec.toNat_add, BitVec.toNat_shiftLeft, Nat.shiftLeft_eq]
    omega
  rw [joinedAddress, lowHalf_hi16, setWidth_lo16, hlowHalf]
  exact rounded_signExtend (joinedAddress high low + relocateTo)

/-! ### Words that lie apart -/

/-- Two words of a buffer that share no byte. -/
def WordsApart (i j : Nat) : Prop := i + 4 ≤ j ∨ j + 4 ≤ i

instance (i j : Nat) : Decidable (WordsApart i j) := inferInstanceAs (Decidable (_ ∨ _))

theorem WordsApart.symm {i j : Nat} (h : WordsApart i j) : WordsApart j i := Or.symm h

section
variable (sizeBits memorySize : Nat) (segments : List PspLoadSegment)

/-- The offset of the word a relocation changes; R_MIPS_NONE changes none. -/
def changedWord (r : Relocation) : Option Nat :=
  if r.type = 0 then none else relocationWordOffset sizeBits r segments memorySize

/-- The words the relocations change are pairwise disjoint. -/
def WordsDisjoint (rs : List Relocation) : Prop :=
  (rs.filterMap (changedWord sizeBits memorySize segments)).Pairwise WordsApart

instance (rs : List Relocation) : Decidable (WordsDisjoint sizeBits memorySize segments rs) :=
  List.instDecidablePairwise _

/-- The relocation changes no byte of the word at an offset. -/
def Relocation.Spares (r : Relocation) (offset : Nat) : Prop :=
  ∀ patch, changedWord sizeBits memorySize segments r = some patch → WordsApart patch offset

variable {sizeBits memorySize segments} {guestBase : Word}

theorem readU32_writeU32_of_apart {memory : Bytes} {patch offset : Nat} (value : Word)
    (h : WordsApart patch offset) : readU32 (writeU32 memory patch value) offset = readU32 memory offset := by
  refine readU32_congr fun j hj => writeU32_of_not_mem _ _ _ fun k hk => ?_
  rcases h with h | h <;> omega

/-- The first round of a successful run. -/
theorem applyRelocations_cons_of_success {memory m : Bytes} {r : Relocation} {rest : List Relocation}
    (h : applyRelocations sizeBits memorySize guestBase segments memory (r :: rest) = (.success, m)) :
    ∃ target offset word, findSegment segments r.targetSegment = some target ∧
      relocationWordOffset sizeBits r segments memorySize = some offset ∧
      patchedWord r.type (readU32 memory offset) (guestBase + target.address)
        (lowWord sizeBits memorySize segments r.targetSegment memory rest) = .ok word ∧
      applyRelocations sizeBits memorySize guestBase segments (writeU32 memory offset word) rest = (.success, m) := by
  obtain ⟨patch, hpatch⟩ := patchOffset_of_success h
  have hoffset := relocationWordOffset_of_patchOffset hpatch
  obtain ⟨target, htarget, hstep⟩ := relocationStep_of_some hpatch
  obtain ⟨low, word, -, hstep⟩ := hstep guestBase memory
  rw [applyRelocations_cons, hstep] at h
  simp only [relocationStep, htarget, hoffset] at hstep
  cases hword : patchedWord r.type (readU32 memory patch) (guestBase + target.address)
      (lowWord sizeBits memorySize segments r.targetSegment memory rest) with
  | error e =>
    rw [hword] at hstep
    cases hstep
  | ok patched =>
    rw [hword] at hstep
    refine ⟨target, patch, patched, htarget, hoffset, hword, ?_⟩
    rw [Except.ok.inj hstep]
    exact h

/-- A round keeps the words that its relocation spares. -/
theorem readU32_round {memory : Bytes} {r : Relocation} {patch offset : Nat} {relocateTo word : Word}
    {low : Except RelocationResult Word}
    (hpatch : relocationWordOffset sizeBits r segments memorySize = some patch)
    (hword : patchedWord r.type (readU32 memory patch) relocateTo low = .ok word)
    (hspares : r.Spares sizeBits memorySize segments offset) :
    readU32 (writeU32 memory patch word) offset = readU32 memory offset := by
  by_cases htype : r.type = 0
  · rw [htype] at hword
    obtain rfl := Except.ok.inj hword
    refine readU32_congr fun j _ => ?_
    by_cases hin : ∃ k < 4, offset + j = patch + k
    · obtain ⟨k, hk, heq⟩ := hin
      rw [heq, writeU32_apply _ _ _ hk, wordByte_readU32 _ _ hk]
    · exact writeU32_of_not_mem _ _ _ fun k hk heq => hin ⟨k, hk, heq⟩
  · refine readU32_writeU32_of_apart word (hspares patch ?_)
    rw [changedWord, if_neg htype, hpatch]

/-- A successful run up to a point in the list: words that are spared so far are as they were. -/
theorem applyRelocations_append {before rest : List Relocation} {memory m : Bytes}
    (h : applyRelocations sizeBits memorySize guestBase segments memory (before ++ rest) = (.success, m)) :
    ∃ memory', applyRelocations sizeBits memorySize guestBase segments memory' rest = (.success, m) ∧
      ∀ offset, (∀ r ∈ before, r.Spares sizeBits memorySize segments offset) →
        readU32 memory' offset = readU32 memory offset := by
  induction before generalizing memory with
  | nil => exact ⟨memory, h, fun _ _ => rfl⟩
  | cons r before ih =>
    obtain ⟨target, patch, word, -, hpatch, hword, hrun⟩ := applyRelocations_cons_of_success h
    obtain ⟨memory', hrest, hkept⟩ := ih hrun
    refine ⟨memory', hrest, fun offset hspares => ?_⟩
    obtain ⟨hr, hbefore⟩ := List.forall_mem_cons.1 hspares
    rw [hkept offset hbefore, readU32_round hpatch hword hr]

/-- The others spare the word of a relocation that patches. -/
theorem WordsDisjoint.spares {before rest : List Relocation} {r : Relocation} {offset : Nat}
    (h : WordsDisjoint sizeBits memorySize segments (before ++ r :: rest)) (htype : r.type ≠ 0)
    (hoffset : relocationWordOffset sizeBits r segments memorySize = some offset) :
    ∀ r' ∈ before ++ rest, r'.Spares sizeBits memorySize segments offset := by
  have hchanged : changedWord sizeBits memorySize segments r = some offset := by
    rw [changedWord, if_neg htype, hoffset]
  obtain ⟨-, hrest, hbefore⟩ := List.pairwise_append.1 (List.pairwise_filterMap.1 h)
  obtain ⟨hr, -⟩ := List.pairwise_cons.1 hrest
  intro r' hr' patch hpatch
  rcases List.mem_append.1 hr' with hr' | hr'
  · exact hbefore r' hr' r (List.mem_cons_self ..) patch hpatch offset hchanged
  · exact (hr r' hr' offset hchanged patch hpatch).symm

/-! ### The lookahead -/

/-- The LO16 that a HI16 of the list is paired with: the first one behind it with its target segment. -/
def Paired (rs : List Relocation) (high low : Relocation) : Prop :=
  ∃ before skipped rest, rs = before ++ high :: (skipped ++ low :: rest) ∧ high.type = 5 ∧
    low.type = 6 ∧ low.targetSegment = high.targetSegment ∧
    ∀ r ∈ skipped, ¬ (r.type = 6 ∧ r.targetSegment = high.targetSegment)

theorem lowWord_of_split {targetSegment : Byte} (memory : Bytes) {skipped rest : List Relocation}
    {low : Relocation} {offset : Nat}
    (hskipped : ∀ r ∈ skipped, ¬ (r.type = 6 ∧ r.targetSegment = targetSegment)) (htype : low.type = 6)
    (htarget : low.targetSegment = targetSegment)
    (hoffset : relocationWordOffset sizeBits low segments memorySize = some offset) :
    lowWord sizeBits memorySize segments targetSegment memory (skipped ++ low :: rest) =
      .ok (readU32 memory offset) := by
  induction skipped with
  | nil =>
    rw [List.nil_append, lowWord, if_neg, hoffset]
    simp [htype, htarget]
  | cons r skipped ih =>
    obtain ⟨hr, hrest⟩ := List.forall_mem_cons.1 hskipped
    rw [List.cons_append, lowWord, if_pos]
    · exact ih hrest
    · exact not_and_or.1 hr

/-- Where the lookahead ends. -/
theorem lowWord_split {targetSegment : Byte} {memory : Bytes} {rs : List Relocation} {word : Word}
    (h : lowWord sizeBits memorySize segments targetSegment memory rs = .ok word) :
    ∃ skipped low rest offset, rs = skipped ++ low :: rest ∧
      (∀ r ∈ skipped, ¬ (r.type = 6 ∧ r.targetSegment = targetSegment)) ∧
      low.type = 6 ∧ low.targetSegment = targetSegment ∧
      relocationWordOffset sizeBits low segments memorySize = some offset ∧ word = readU32 memory offset := by
  induction rs with
  | nil => cases h
  | cons low rest ih =>
    rw [lowWord] at h
    split at h
    next hskip =>
      obtain ⟨skipped, low', rest', offset, rfl, hskipped, hlow⟩ := ih h
      refine ⟨low :: skipped, low', rest', offset, rfl, ?_, hlow⟩
      rintro r hr ⟨htype, htarget⟩
      rcases List.mem_cons.1 hr with rfl | hr
      · rcases hskip with hskip | hskip
        · exact hskip htype
        · exact hskip htarget
      · exact hskipped r hr ⟨htype, htarget⟩
    next hskip =>
      obtain ⟨htype, htarget⟩ := not_or.1 hskip
      split at h
      · cases h
      next offset hoffset =>
        exact ⟨[], low, rest, offset, rfl, fun _ hr => absurd hr List.not_mem_nil, not_not.1 htype,
          not_not.1 htarget, hoffset, (Except.ok.inj h).symm⟩

/-! ### Runs that succeed -/

/-- A HI16 that is got past has its LO16. -/
theorem exists_paired {rs : List Relocation} {memory m : Bytes}
    (h : applyRelocations sizeBits memorySize guestBase segments memory rs = (.success, m)) {high : Relocation}
    (hmem : high ∈ rs) (htype : high.type = 5) : ∃ low, Paired rs high low := by
  obtain ⟨before, after, rfl⟩ := List.append_of_mem hmem
  obtain ⟨memory', hrun, -⟩ := applyRelocations_append h
  obtain ⟨target, offset, word, -, -, hword, -⟩ := applyRelocations_cons_of_success hrun
  rw [htype] at hword
  cases hlow : lowWord sizeBits memorySize segments high.targetSegment memory' after with
  | error e =>
    rw [hlow] at hword
    cases hword
  | ok lowWord =>
    obtain ⟨skipped, low, rest, -, rfl, hskipped, hlowType, hlowTarget, -, -⟩ := lowWord_split hlow
    exact ⟨low, before, skipped, rest, rfl, htype, hlowType, hlowTarget, hskipped⟩

/-- Where the words lie apart, a pair makes the relocated address. -/
theorem joinedAddress_of_paired {rs : List Relocation} {memory m : Bytes}
    (hdisjoint : WordsDisjoint sizeBits memorySize segments rs)
    (h : applyRelocations sizeBits memorySize guestBase segments memory rs = (.success, m)) {high low : Relocation}
    (hpaired : Paired rs high low) :
    ∃ target highOffset lowOffset, findSegment segments high.targetSegment = some target ∧
      relocationWordOffset sizeBits high segments memorySize = some highOffset ∧
      relocationWordOffset sizeBits low segments memorySize = some lowOffset ∧
      joinedAddress (readU32 m highOffset) (readU32 m lowOffset) =
        joinedAddress (readU32 memory highOffset) (readU32 memory lowOffset) + (guestBase + target.address) := by
  obtain ⟨before, skipped, rest, rfl, hhigh, hlow, htarget, hskipped⟩ := hpaired
  obtain ⟨lowOffset, hlowOffset⟩ := relocationWordOffset_of_success h low (by simp)
  -- the runs up to the HI16, over it, up to the LO16, over it, and to the end
  obtain ⟨memory₁, h₁, hkept₁⟩ := applyRelocations_append h
  obtain ⟨target, highOffset, word, hsegment, hhighOffset, hword, h₂⟩ := applyRelocations_cons_of_success h₁
  obtain ⟨memory₃, h₃, hkept₃⟩ := applyRelocations_append h₂
  obtain ⟨target', lowOffset', word', hsegment', hlowOffset', hword', h₄⟩ := applyRelocations_cons_of_success h₃
  rw [← List.append_nil rest] at h₄
  obtain ⟨memory₅, h₅, hkept₅⟩ := applyRelocations_append h₄
  obtain ⟨-, hm⟩ := Prod.mk.inj h₅
  rw [hm] at hkept₅
  rw [hlowOffset] at hlowOffset'
  obtain rfl := Option.some.inj hlowOffset'
  rw [htarget, hsegment] at hsegment'
  obtain rfl := Option.some.inj hsegment'
  have hspareHigh := hdisjoint.spares (by rw [hhigh]; decide) hhighOffset
  have hspareLow : ∀ r ∈ (before ++ high :: skipped) ++ rest, r.Spares sizeBits memorySize segments lowOffset := by
    refine WordsDisjoint.spares ?_ (by rw [hlow]; decide) hlowOffset
    simpa using hdisjoint
  simp only [List.mem_append, List.mem_cons] at hspareHigh hspareLow
  have hlowSpares : low.Spares sizeBits memorySize segments highOffset :=
    hspareHigh low (.inr (.inr (.inl rfl)))
  refine ⟨target, highOffset, lowOffset, hsegment, hhighOffset, hlowOffset, ?_⟩
  have hhighWord : readU32 m highOffset = word := by
    rw [hkept₅ highOffset fun r hr => hspareHigh r (.inr (.inr (.inr hr))),
      readU32_round hlowOffset hword' hlowSpares, hkept₃ highOffset fun r hr => hspareHigh r (.inr (.inl hr)),
      readU32_writeU32]
  have hlowWord : readU32 m lowOffset = word' := by
    rw [hkept₅ lowOffset fun r hr => hspareLow r (.inr hr), readU32_writeU32]
  have hlowRead : readU32 memory₁ lowOffset = readU32 memory lowOffset :=
    hkept₁ lowOffset fun r hr => hspareLow r (.inl (.inl hr))
  have hlowAhead : readU32 memory₃ lowOffset = readU32 memory lowOffset := by
    rw [hkept₃ lowOffset fun r hr => hspareLow r (.inl (.inr (.inr hr))),
      readU32_round hhighOffset hword (hspareLow high (.inl (.inr (.inl rfl)))), hlowRead]
  rw [lowWord_of_split memory₁ hskipped hlow htarget hlowOffset, hhigh,
    hkept₁ highOffset fun r hr => hspareHigh r (.inl hr), hlowRead] at hword
  rw [hlow, hlowAhead] at hword'
  rw [hhighWord, hlowWord]
  exact joinedAddress_patched hword hword'

end

/-- After a successful run over words that lie apart, every HI16 has its LO16, and the two make the address they made
before, plus the guest base and the address of the target segment. -/
theorem hi16_lo16_relocated (sizeBits memorySize : Nat) (guestBase : Word) (segments : List PspLoadSegment)
    (relocations : List Relocation) (memory m : Bytes)
    (hdisjoint : WordsDisjoint sizeBits memorySize segments relocations)
    (h : applyPspRelocations sizeBits (some memory) memorySize guestBase (some segments) relocations =
      (.success, some m)) :
    (∀ high ∈ relocations, high.type = 5 → ∃ low, Paired relocations high low) ∧
    ∀ high low, Paired relocations high low →
      ∃ target highOffset lowOffset, findSegment segments high.targetSegment = some target ∧
        relocationWordOffset sizeBits high segments memorySize = some highOffset ∧
        relocationWordOffset sizeBits low segments memorySize = some lowOffset ∧
        joinedAddress (readU32 m highOffset) (readU32 m lowOffset) =
          joinedAddress (readU32 memory highOffset) (readU32 memory lowOffset) +
            (guestBase + target.address) := by
  have hrun : applyRelocations sizeBits memorySize guestBase segments memory relocations = (.success, m) := by
    obtain ⟨hresult, hmemory⟩ := Prod.mk.inj h
    exact Prod.ext hresult (Option.some.inj hmemory)
  exact ⟨fun high hmem htype => exists_paired hrun hmem htype,
    fun high low hpaired => joinedAddress_of_paired hdisjoint hrun hpaired⟩

/-! ### Two HI16 with one LO16 -/

/-- `lui` twice and `addiu` once, of the address 0x18000 as 0x20000 - 0x8000. -/
def sharedLow : Bytes := fun i => [2, 0, 4, 60, 2, 0, 5, 60, 0, 128, 132, 36].getD i 0

theorem hi16_lo16_relocated_sharedLow :
    let relocations : List Relocation := [⟨0, 5, 0, 0⟩, ⟨4, 5, 0, 0⟩, ⟨8, 6, 0, 0⟩]
    let m := (applyRelocations 32 12 0x08804000 [⟨0, 12, 0⟩] sharedLow relocations).2
    ∀ high low, Paired relocations high low →
      ∃ target highOffset lowOffset, findSegment [⟨0, 12, 0⟩] high.targetSegment = some target ∧
        relocationWordOffset 32 high [⟨0, 12, 0⟩] 12 = some highOffset ∧
        relocationWordOffset 32 low [⟨0, 12, 0⟩] 12 = some lowOffset ∧
        joinedAddress (readU32 m highOffset) (readU32 m lowOffset) =
          joinedAddress (readU32 sharedLow highOffset) (readU32 sharedLow lowOffset) +
            (0x08804000 + target.address) := by
  intro relocations m
  have hresult : (applyRelocations 32 12 0x08804000 [⟨0, 12, 0⟩] sharedLow relocations).1 = .success := by
    decide
  refine (hi16_lo16_relocated 32 12 0x08804000 [⟨0, 12, 0⟩] relocations sharedLow m (by decide) ?_).2
  exact Prod.ext hresult rfl

end Psprism
