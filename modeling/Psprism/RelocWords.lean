import Psprism.Image
import Psprism.RelocRun

/-!
# The words treated as relocated

The emitter bakes a word into generated code when its address is not one that a relocation adds to
`relocated_words`. Those are the addresses of the patched words themselves, so a relocation whose
address is not a multiple of four also patches bytes of words that are baked in.
-/

namespace Psprism

/-- The words of the memory image that are emitted as constants, with their addresses. -/
def bakedWords (image : LoadedImage) : List (Word × Word) :=
  image.instructions.filter fun p =>
    p.1 ∉ relocatedWords image.toElfImage ∧ p.1.toNat + 4 ≤ image.size.toNat

/-- The sections hold the bytes that the segments load at their addresses. -/
def SectionsMatch (image : LoadedImage) : Prop :=
  ∀ p ∈ bakedWords image, readU32 image.memory p.1.toNat = p.2

/-- No relocation that is reached can change a byte of a baked word. -/
def RelocationsCovered (sizeBits : Nat) (image : LoadedImage) : Prop :=
  ∀ q ∈ reachedRelocations sizeBits image.size.toNat image.segments image.relocations,
    ∀ j < changedBytes q.1.type, ∀ p ∈ bakedWords image,
      ¬ (p.1.toNat ≤ q.2 + j ∧ q.2 + j < p.1.toNat + 4)

instance (image : LoadedImage) : Decidable (SectionsMatch image) :=
  List.decidableBAll _ (bakedWords image)

instance (sizeBits : Nat) (image : LoadedImage) : Decidable (RelocationsCovered sizeBits image) :=
  let (q : Relocation × Nat) (j : Nat) : Decidable (∀ p ∈ bakedWords image,
      ¬ (p.1.toNat ≤ q.2 + j ∧ q.2 + j < p.1.toNat + 4)) := List.decidableBAll _ (bakedWords image)
  List.decidableBAll (fun q : Relocation × Nat => ∀ j < changedBytes q.1.type, ∀ p ∈ bakedWords image, _)
    (reachedRelocations sizeBits image.size.toNat image.segments image.relocations)

/-- Relocation never changes a baked word, for any guest base and at any point of the run, exactly
when the sections match the segments and no relocation reaches into a baked word. -/
theorem bakedWords_kept_iff (sizeBits : Nat) (image : LoadedImage) :
    (∀ guestBase, ∀ m ∈ relocationRun sizeBits image.size.toNat guestBase image.segments image.memory
        image.relocations, ∀ p ∈ bakedWords image, readU32 m p.1.toNat = p.2) ↔
      SectionsMatch image ∧ RelocationsCovered sizeBits image := by
  constructor
  · intro h
    refine ⟨fun p hp => h 0 _ (mem_relocationRun_self _ _) p hp, fun q hq j hj p hp hin => ?_⟩
    obtain ⟨guestBase, hflip⟩ := relocationRun_flips hq hj
    obtain ⟨m, m', hm, hm', hne⟩ := hflip image.memory
    -- the flipped byte is byte `k` of the baked word, which both memories hold
    obtain ⟨k, hk⟩ := Nat.exists_eq_add_of_le hin.1
    have hk4 : k < 4 := by omega
    apply hne
    rw [hk, ← wordByte_readU32 m' _ hk4, ← wordByte_readU32 m _ hk4, h guestBase m' hm' p hp,
      h guestBase m hm p hp]
  · rintro ⟨hmatch, hcovered⟩ guestBase m hm p hp
    rw [← hmatch p hp]
    refine readU32_congr fun k hk => relocationRun_keeps (fun q hq j hj heq => ?_) hm
    exact hcovered q hq j hj p hp ⟨by omega, by omega⟩

/-- Two words of code, and an R_MIPS_32 relocation of the halves that meet between them. -/
def straddledImage : LoadedImage where
  entry := 0
  executableSections := [⟨0, [0x01, 0x00, 0x01, 0x24, 0x08, 0x00, 0xe0, 0x03]⟩]
  loadSegments := [⟨⟨0, 8, 0⟩, [0x01, 0x00, 0x01, 0x24, 0x08, 0x00, 0xe0, 0x03]⟩]
  relocations := [⟨2, 2, 0, 0⟩]
  size := 8
  memory := copyBytes (fun _ => 0) 0 [0x01, 0x00, 0x01, 0x24, 0x08, 0x00, 0xe0, 0x03]
  memorySize_eq := by decide
  memoryImage_eq := rfl
  aligned := by decide

/-- Both words are baked in, and relocation to 0x08804000 turns `addiu $1, $0, 1` into another word. -/
theorem straddledImage_changed :
    (0, 0x24010001) ∈ bakedWords straddledImage ∧ SectionsMatch straddledImage ∧
      (applyPspRelocations 64 (some straddledImage.memory) straddledImage.size.toNat 0x08804000
        (some straddledImage.segments) straddledImage.relocations).1 = .success ∧
      readU32 (applyRelocations 64 straddledImage.size.toNat 0x08804000 straddledImage.segments
        straddledImage.memory straddledImage.relocations).2 0 = 0x64010001 := by
  decide

/-! ### Aligned relocations -/

theorem mem_reachedRelocations {sizeBits memorySize : Nat} {segments : List PspLoadSegment}
    {rs : List Relocation} {q : Relocation × Nat}
    (hq : q ∈ reachedRelocations sizeBits memorySize segments rs) :
    q.1 ∈ rs ∧ relocationWordOffset sizeBits q.1 segments memorySize = some q.2 := by
  induction rs with
  | nil => cases hq
  | cons r rest ih =>
    unfold reachedRelocations at hq
    split at hq
    · cases hq
    · rename_i offset hp
      rcases List.mem_cons.1 hq with rfl | hq
      · exact ⟨List.mem_cons_self .., relocationWordOffset_of_patchOffset hp⟩
      · exact ⟨List.mem_cons_of_mem _ (ih hq).1, (ih hq).2⟩

theorem LoadedImage.instructions_aligned (image : LoadedImage) {p : Word × Word}
    (hp : p ∈ image.instructions) : p.1.toNat % 4 = 0 := by
  obtain ⟨s, hs, hp⟩ := List.mem_flatMap.1 hp
  obtain ⟨k, -, rfl⟩ := List.mem_map.1 hp
  have haddress := (image.aligned s hs).1
  show (s.address + BitVec.ofNat 32 (4 * k)).toNat % 4 = 0
  rw [BitVec.toNat_add, BitVec.toNat_ofNat]
  omega

/-- Where every relocation patches a multiple of four, the set covers what relocation changes. -/
theorem relocationsCovered_of_aligned {sizeBits : Nat} (hbits : 32 ≤ sizeBits) (image : LoadedImage)
    (h : ∀ pc ∈ relocatedWords image.toElfImage, pc.toNat % 4 = 0) :
    RelocationsCovered sizeBits image := by
  intro q hq j hj p hp hin
  obtain ⟨hr, hoffset⟩ := mem_reachedRelocations hq
  rw [image.relocationWordOffset_eq hbits] at hoffset
  obtain ⟨pc, hpc, hq2⟩ := Option.map_eq_some_iff.1 hoffset
  have hmem : pc ∈ relocatedWords image.toElfImage := List.mem_filterMap.2 ⟨q.1, hr, hpc⟩
  obtain ⟨hp, hbaked⟩ := List.mem_filter.1 hp
  obtain ⟨hnot, -⟩ := of_decide_eq_true hbaked
  have hne : p.1.toNat ≠ pc.toNat := fun heq => hnot (BitVec.eq_of_toNat_eq heq ▸ hmem)
  have h4 : j < 4 := by
    rcases changedBytes_cases hj with ⟨-, h⟩ | ⟨-, h⟩ | ⟨-, h⟩ | ⟨-, h⟩ <;> omega
  have ha := h pc hmem
  have hb := image.instructions_aligned hp
  omega

end Psprism
