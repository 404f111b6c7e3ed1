import Psprism.EmitControl
import Psprism.RelocWords

/-!
# Targets of j and jal

The target of a jump is computed three times: by the emitter, as a literal added to the memory base
or, for a word it treats as relocated, by `instruction_jump_target` at run time; by the analysis, as
an image offset; and by the hardware, which is `instruction_jump_target` of the word in memory. A
jump that no relocation patches is taken as relative to the image; one patched by an R_MIPS_26
relocation agrees with the analysis as long as its target lies in the 256 MB region of its delay slot.
-/

namespace Psprism

/-- What `emit_instruction` makes of a jump's target, evaluated. -/
def emittedJumpTarget (H : Host) (image : ElfImage) (preferredBase : Word) (s : State) (pc w : Word) :
    Word :=
  (emitJumpTarget pc w (pc ∈ relocatedWords image) preferredBase).eval H (s.memoryBase + pc) s

/-- `emit_project` passes the image's preferred base on. -/
def projectJumpTarget (H : Host) (image : ElfImage) : State → Word → Word → Word :=
  emittedJumpTarget H image image.preferredBase

/-- `emit_cpp` leaves the preferred base at its default. -/
def cppJumpTarget (H : Host) (image : ElfImage) : State → Word → Word → Word :=
  emittedJumpTarget H image 0

/-- The image offset the analysis gives a jump, at a memory base. -/
def analysisJumpTarget (image : ElfImage) (s : State) (pc w : Word) : Option Word :=
  (directControlTarget pc w (jumpRelocationBases image) image.preferredBase).map (s.memoryBase + ·)

/-! ### The table of jump relocation bases -/

theorem foldl_update_none {l : List (Word × Word)} {pc : Word} (h : ∀ e ∈ l, e.1 ≠ pc)
    (bases : Word → Option Word) :
    l.foldl (fun bases (address, base) => Function.update bases address (some base)) bases pc =
      bases pc := by
  induction l generalizing bases with
  | nil => rfl
  | cons e rest ih =>
    rw [List.foldl_cons, ih fun e he => h e (List.mem_cons_of_mem _ he)]
    exact Function.update_of_ne (Ne.symm (h e (List.mem_cons_self ..))) _ _

theorem foldl_update_some {l : List (Word × Word)} {pc base : Word}
    (h : ∀ e ∈ l, e.1 = pc → e.2 = base) {bases : Word → Option Word}
    (hex : (∃ e ∈ l, e.1 = pc) ∨ bases pc = some base) :
    l.foldl (fun bases (address, base) => Function.update bases address (some base)) bases pc =
      some base := by
  induction l generalizing bases with
  | nil =>
    rcases hex with ⟨e, he, -⟩ | hex
    · cases he
    · exact hex
  | cons e rest ih =>
    rw [List.foldl_cons]
    refine ih (fun e he => h e (List.mem_cons_of_mem _ he)) ?_
    by_cases heq : e.1 = pc
    · refine .inr ?_
      rw [← h e (List.mem_cons_self ..) heq, ← heq]
      exact Function.update_self ..
    · rcases hex with ⟨e', he', heq'⟩ | hex
      · rcases List.mem_cons.1 he' with rfl | he'
        · exact absurd heq' heq
        · exact .inl ⟨e', he', heq'⟩
      · exact .inr (by rw [← hex]; exact Function.update_of_ne (Ne.symm heq) _ _)

/-- In an image whose relocations apply, an entry of the table is a patched word. -/
theorem relocatedWord_of_jumpRelocationBase {image : LoadedImage} {sizeBits : Nat}
    (hbits : 32 ≤ sizeBits) {r : Relocation} {offset : Nat}
    (hoffset : relocationWordOffset sizeBits r image.segments image.size.toNat = some offset)
    {e : Word × Word} (he : jumpRelocationBase image.toElfImage r = some e) :
    relocatedWord image.toElfImage r = some e.1 ∧ r.type = 4 ∧
      ∃ target, findSegment image.segments r.targetSegment = some target ∧ e.2 = target.address := by
  unfold jumpRelocationBase at he
  split at he
  · cases he
  rename_i htype
  split at he
  case h_2 => cases he
  rename_i patch target hpatch htarget
  cases he
  rw [image.relocationWordOffset_eq hbits] at hoffset
  obtain ⟨pc, hpc, -⟩ := Option.map_eq_some_iff.1 hoffset
  refine ⟨?_, not_not.1 htype, target.toPspLoadSegment, ?_, rfl⟩
  · unfold relocatedWord at hpc ⊢
    rw [hpatch] at hpc ⊢
    dsimp only at hpc ⊢
    split at hpc
    · rename_i hin
      rw [if_pos hin]
    · cases hpc
  · rw [image.findSegment_eq, htarget]
    rfl

theorem jumpRelocationBase_of_relocatedWord {image : LoadedImage} {r : Relocation} {pc : Word}
    {target : PspLoadSegment} (htype : r.type = 4) (hpc : relocatedWord image.toElfImage r = some pc)
    (htarget : findSegment image.segments r.targetSegment = some target) :
    ∃ e, jumpRelocationBase image.toElfImage r = some e ∧ e.1 = pc := by
  rw [image.findSegment_eq] at htarget
  obtain ⟨target', htarget', -⟩ := Option.map_eq_some_iff.1 htarget
  unfold relocatedWord at hpc
  split at hpc
  · cases hpc
  rename_i patch hpatch
  split at hpc
  · cases hpc
    refine ⟨(patch.address + r.offset, target'.address), ?_, rfl⟩
    simp only [jumpRelocationBase, htype, hpatch, htarget', ne_eq, not_true_eq_false, if_false]
  · cases hpc

theorem startsDelayedBranch_of_isJump {w : Word} (h : isJump w = true) :
    startsDelayedBranch w = true := by
  rcases of_decide_eq_true h with hop | hop
  · have hvfpu : vfpuOpcodeSupported w = false := by simp only [vfpuOpcodeSupported, hop]; rfl
    simp only [startsDelayedBranch, decodeAllegrex, classify, hvfpu, hop]
    rfl
  · have hvfpu : vfpuOpcodeSupported w = false := by simp only [vfpuOpcodeSupported, hop]; rfl
    simp only [startsDelayedBranch, decodeAllegrex, classify, hvfpu, hop]
    rfl

/-- The target field after the analysis has relocated it. -/
def relocatedField (w : Word) (base : Option Word) : Word :=
  match base with
  | some base => ((w &&& (0x03ffffff : Word)) + (base >>> 2)) &&& (0x03ffffff : Word)
  | none => w &&& 0x03ffffff

theorem directControlTarget_jump {w : Word} (h : isJump w = true) (pc : Word)
    (jumpBases : Word → Option Word) (preferredBase : Word) :
    directControlTarget pc w jumpBases preferredBase =
      some ((((pc + preferredBase + 4) &&& (0xf0000000 : Word)) |||
        (relocatedField w (jumpBases pc) <<< 2)) - preferredBase) := by
  have h0 : opOf w ≠ 0 := by
    rcases of_decide_eq_true h with hop | hop <;> rw [hop] <;> decide
  simp only [directControlTarget, startsDelayedBranch_of_isJump h, not_true_eq_false, if_false, h0,
    if_pos (of_decide_eq_true h)]
  cases jumpBases pc <;> rfl

/-! ### Regions -/

/-- A field shifted into place lies in the low 28 bits. -/
theorem field_and_low (f : Word) :
    ((f &&& (0x03ffffff : Word)) <<< 2) &&& (0x0fffffff : Word) = (f &&& (0x03ffffff : Word)) <<< 2 := by
  have h : ((0x03ffffff : Word) <<< 2) &&& (0x0fffffff : Word) = (0x03ffffff : Word) <<< 2 := by decide
  rw [BitVec.shiftLeft_and_distrib, BitVec.and_assoc, h]

/-- A target is its region and the 28 bits of its field. -/
theorem target_parts (pc f : Word) :
    ((pc &&& (0xf0000000 : Word)) ||| ((f &&& (0x03ffffff : Word)) <<< 2)) &&& (0xf0000000 : Word) =
      pc &&& (0xf0000000 : Word) ∧
    ((pc &&& (0xf0000000 : Word)) ||| ((f &&& (0x03ffffff : Word)) <<< 2)) &&& (0x0fffffff : Word) =
      (f &&& (0x03ffffff : Word)) <<< 2 := by
  have hr : (0xf0000000 : Word) &&& (0x0fffffff : Word) = 0#32 := by decide
  have hf : ((0x03ffffff : Word) <<< 2) &&& (0xf0000000 : Word) = 0#32 := by decide
  rw [BitVec.and_or_distrib_right, BitVec.and_or_distrib_right]
  constructor
  · rw [BitVec.shiftLeft_and_distrib, BitVec.and_assoc, BitVec.and_self, BitVec.and_assoc, hf,
      BitVec.and_zero, BitVec.or_zero]
  · rw [BitVec.and_assoc, hr, BitVec.and_zero, BitVec.zero_or, field_and_low]

theorem eq_of_region_of_offset {x y : Word} (hr : x &&& (0xf0000000 : Word) = y &&& (0xf0000000 : Word))
    (ho : x &&& (0x0fffffff : Word) = y &&& (0x0fffffff : Word)) : x = y := by
  have hall : (0xf0000000 : Word) ||| (0x0fffffff : Word) = BitVec.allOnes 32 := by decide
  rw [← BitVec.and_allOnes (x := x), ← BitVec.and_allOnes (x := y), ← hall, BitVec.and_or_distrib_left,
    BitVec.and_or_distrib_left, hr, ho]

theorem toNat_and_masks (x : Word) : (x &&& (0x03ffffff : Word)).toNat = x.toNat % 2 ^ 26 ∧
    (x &&& (0x0fffffff : Word)).toNat = x.toNat % 2 ^ 28 ∧ (x &&& (3 : Word)).toNat = x.toNat % 2 ^ 2 := by
  refine ⟨?_, ?_, ?_⟩ <;> rw [BitVec.toNat_and]
  · exact Nat.and_two_pow_sub_one_eq_mod _ 26
  · exact Nat.and_two_pow_sub_one_eq_mod _ 28
  · exact Nat.and_two_pow_sub_one_eq_mod _ 2

theorem toNat_field_shift (x : Word) :
    ((x &&& (0x03ffffff : Word)) <<< 2).toNat = 4 * (x.toNat % 2 ^ 26) := by
  rw [BitVec.toNat_shiftLeft, (toNat_and_masks x).1, Nat.shiftLeft_eq]
  omega

/-- Adding keeps agreement of the low 28 bits. -/
theorem add_and_low {x y : Word} (base : Word) (h : x &&& (0x0fffffff : Word) = y &&& (0x0fffffff : Word)) :
    (base + x) &&& (0x0fffffff : Word) = (base + y) &&& (0x0fffffff : Word) := by
  have h := congrArg BitVec.toNat h
  rw [(toNat_and_masks x).2.1, (toNat_and_masks y).2.1] at h
  apply BitVec.eq_of_toNat_eq
  rw [(toNat_and_masks _).2.1, (toNat_and_masks _).2.1, BitVec.toNat_add, BitVec.toNat_add]
  omega

/-- The field of a word whose field has been replaced. -/
theorem field_of_replaced (w field : Word) :
    ((w &&& (0xfc000000 : Word)) ||| (field &&& (0x03ffffff : Word))) &&& (0x03ffffff : Word) =
      field &&& (0x03ffffff : Word) := by
  have h : (0xfc000000 : Word) &&& (0x03ffffff : Word) = 0#32 := by decide
  rw [BitVec.and_or_distrib_right, BitVec.and_assoc, h, BitVec.and_zero, BitVec.zero_or,
    BitVec.and_assoc, BitVec.and_self]

/-- Relocating the field by the base moves the target by the base, up to its region. -/
theorem field_add_base {base : Word} (hbase : base &&& 3 = 0) (field address : Word) :
    (((field &&& (0x03ffffff : Word)) + ((base + address) >>> 2)) &&& (0x03ffffff : Word)) <<< 2 =
      (base + ((((field &&& (0x03ffffff : Word)) + (address >>> 2)) &&& (0x03ffffff : Word)) <<< 2)) &&&
        (0x0fffffff : Word) := by
  apply BitVec.eq_of_toNat_eq
  have hb : base.toNat % 2 ^ 2 = 0 := by rw [← (toNat_and_masks base).2.2, hbase]; rfl
  have hb' := base.isLt
  have ha := address.isLt
  rw [(toNat_and_masks _).2.1, BitVec.toNat_add, toNat_field_shift, toNat_field_shift, BitVec.toNat_add,
    BitVec.toNat_add, (toNat_and_masks field).1, BitVec.toNat_ushiftRight, BitVec.toNat_ushiftRight,
    BitVec.toNat_add, Nat.shiftRight_eq_div_pow, Nat.shiftRight_eq_div_pow]
  omega

/-! ### Agreement -/

/-- A jump of an image that was relocated to the state's memory base; guest memory holds its word. -/
structure RelocatedJump (sizeBits : Nat) (image : LoadedImage) (s : State) (m : Bytes) (pc w : Word) :
    Prop where
  bits : 32 ≤ sizeBits
  jump : isJump w = true
  word : readU32 image.memory pc.toNat = w
  applied : applyRelocations sizeBits image.size.toNat s.memoryBase image.segments image.memory
    image.relocations = (.success, m)
  holds : instructionWord s (s.memoryBase + pc) w = readU32 m pc.toNat

namespace RelocatedJump
variable {sizeBits : Nat} {image : LoadedImage} {s : State} {m : Bytes} {pc w : Word} {H : Host}

/-- A relocation of the word at `pc` is one of its patches. -/
theorem mem_patchesOf (h : RelocatedJump sizeBits image s m pc w) {r : Relocation}
    (hr : r ∈ image.relocations) (hpc : relocatedWord image.toElfImage r = some pc) :
    r ∈ patchesOf sizeBits image.size.toNat image.segments pc.toNat image.relocations := by
  refine List.mem_filter.2 ⟨hr, ?_⟩
  rw [image.relocationWordOffset_eq h.bits, hpc, Option.map_some]
  show decide (pc.toNat < pc.toNat + 4 ∧ pc.toNat < pc.toNat + 4) = true
  exact decide_eq_true ⟨by omega, by omega⟩

/-- The entries of the jump relocation bases for `pc` come from its patches. -/
theorem entry (h : RelocatedJump sizeBits image s m pc w) {e : Word × Word}
    (he : e ∈ image.relocations.filterMap (jumpRelocationBase image.toElfImage)) (hpc : e.1 = pc) :
    ∃ r ∈ patchesOf sizeBits image.size.toNat image.segments pc.toNat image.relocations,
      ∃ target, findSegment image.segments r.targetSegment = some target ∧ e.2 = target.address := by
  obtain ⟨r, hr, he⟩ := List.mem_filterMap.1 he
  obtain ⟨offset, hoffset⟩ := relocationWordOffset_of_success h.applied r hr
  obtain ⟨hword, -, target, htarget, he2⟩ := relocatedWord_of_jumpRelocationBase h.bits hoffset he
  exact ⟨r, h.mem_patchesOf hr (hpc ▸ hword), target, htarget, he2⟩

theorem unpatched (h : RelocatedJump sizeBits image s m pc w)
    (hp : patchesOf sizeBits image.size.toNat image.segments pc.toNat image.relocations = []) :
    pc ∉ relocatedWords image.toElfImage ∧ jumpRelocationBases image.toElfImage pc = none ∧
      readU32 m pc.toNat = w := by
  refine ⟨fun hmem => ?_, ?_, ?_⟩
  · obtain ⟨r, hr, hpc⟩ := List.mem_filterMap.1 hmem
    have := h.mem_patchesOf hr hpc
    rw [hp] at this
    cases this
  · refine foldl_update_none (fun e he hpc => ?_) _
    obtain ⟨r, hr, -⟩ := h.entry he hpc
    rw [hp] at hr
    cases hr
  · rw [(readU32_of_success h.applied).1 hp, h.word]

theorem patchedOnce (h : RelocatedJump sizeBits image s m pc w) {r : Relocation}
    (hp : patchesOf sizeBits image.size.toNat image.segments pc.toNat image.relocations = [r])
    (htype : r.type = 4) (hpc : relocatedWord image.toElfImage r = some pc) :
    pc ∈ relocatedWords image.toElfImage ∧ ∃ address,
      jumpRelocationBases image.toElfImage pc = some address ∧
      readU32 m pc.toNat = (w &&& (0xfc000000 : Word)) |||
        (((w &&& (0x03ffffff : Word)) + ((s.memoryBase + address) >>> 2)) &&& (0x03ffffff : Word)) := by
  have hr : r ∈ image.relocations :=
    (List.mem_filter.1 (hp ▸ List.mem_singleton_self r : r ∈ patchesOf ..)).1
  refine ⟨List.mem_filterMap.2 ⟨r, hr, hpc⟩, ?_⟩
  have hoffset : relocationWordOffset sizeBits r image.segments image.size.toNat = some pc.toNat := by
    rw [image.relocationWordOffset_eq h.bits, hpc, Option.map_some]
  obtain ⟨target, low, htarget, hword⟩ := (readU32_of_success h.applied).2 r hp hoffset
  refine ⟨target.address, ?_, ?_⟩
  · refine foldl_update_some (fun e he hpc => ?_) (.inl ?_)
    · obtain ⟨r', hr', target', htarget', he2⟩ := h.entry he hpc
      rw [hp, List.mem_singleton] at hr'
      rw [he2]
      rw [hr', htarget] at htarget'
      cases htarget'
      rfl
    · obtain ⟨e, he, hpc⟩ := jumpRelocationBase_of_relocatedWord htype hpc htarget
      exact ⟨e, List.mem_filterMap.2 ⟨r, hr, he⟩, hpc⟩
  · rw [h.word, htype] at hword
    exact (Except.ok.inj hword).symm

end RelocatedJump

/-- Where no relocation patches a jump, the project emitter and the analysis take it as relative to
the image; the single-file emitter does so too for a relocatable image, and for an image at its
preferred base the target is that of the hardware. Where exactly one relocation patches it, of type
R_MIPS_26 and at its address, both emitters leave the target to the hardware's rule; the analysis of
a relocatable image at a word-aligned base agrees exactly when its target lies in the region of the
delay slot. -/
theorem jumpTargets_agree (H : Host) {sizeBits : Nat} {image : LoadedImage} {s : State} {m : Bytes}
    {pc w : Word} (h : RelocatedJump sizeBits image s m pc w) :
    (patchesOf sizeBits image.size.toNat image.segments pc.toNat image.relocations = [] →
      analysisJumpTarget image.toElfImage s pc w = some (projectJumpTarget H image.toElfImage s pc w) ∧
      (image.preferredBase = 0 →
        cppJumpTarget H image.toElfImage s pc w = projectJumpTarget H image.toElfImage s pc w) ∧
      (s.memoryBase = image.preferredBase → projectJumpTarget H image.toElfImage s pc w =
        instructionJumpTarget s (s.memoryBase + pc) w)) ∧
    ∀ r, patchesOf sizeBits image.size.toNat image.segments pc.toNat image.relocations = [r] →
      r.type = 4 → relocatedWord image.toElfImage r = some pc →
      cppJumpTarget H image.toElfImage s pc w = projectJumpTarget H image.toElfImage s pc w ∧
      projectJumpTarget H image.toElfImage s pc w = instructionJumpTarget s (s.memoryBase + pc) w ∧
      (image.preferredBase = 0 → s.memoryBase &&& 3 = 0 →
        ∃ target, analysisJumpTarget image.toElfImage s pc w = some target ∧
          (target = projectJumpTarget H image.toElfImage s pc w ↔
            target &&& (0xf0000000 : Word) = (s.memoryBase + pc + 4) &&& (0xf0000000 : Word))) := by
  refine ⟨fun hp => ?_, fun r hp htype hpc => ?_⟩
  · obtain ⟨hmem, hbases, hword⟩ := h.unpatched hp
    have hproject : ∀ preferredBase, emittedJumpTarget H image.toElfImage preferredBase s pc w =
        s.memoryBase + (regionTarget (pc + preferredBase) w - preferredBase) := by
      intro preferredBase
      simp only [emittedJumpTarget, emitJumpTarget, decide_eq_false hmem, Bool.false_eq_true,
        not_false_eq_true, if_true]
      rfl
    refine ⟨?_, fun h0 => ?_, fun hbase => ?_⟩
    · rw [projectJumpTarget, hproject, analysisJumpTarget, directControlTarget_jump h.jump, hbases]
      rfl
    · rw [cppJumpTarget, projectJumpTarget, h0]
    · rw [projectJumpTarget, hproject, instructionJumpTarget, h.holds, hword, hbase, BitVec.add_comm pc,
        BitVec.add_comm _ (_ - _), BitVec.sub_add_cancel]
  · obtain ⟨hmem, address, hbases, hword⟩ := h.patchedOnce hp htype hpc
    have hruntime : ∀ preferredBase, emittedJumpTarget H image.toElfImage preferredBase s pc w =
        instructionJumpTarget s (s.memoryBase + pc) w := by
      intro preferredBase
      simp only [emittedJumpTarget, emitJumpTarget, decide_eq_true hmem, not_true_eq_false, if_false]
      rfl
    refine ⟨(hruntime _).trans (hruntime _).symm, hruntime _, fun h0 hbase => ?_⟩
    refine ⟨s.memoryBase + (((pc + 4) &&& (0xf0000000 : Word)) |||
      (relocatedField w (some address) <<< 2)), ?_, ?_⟩
    · rw [analysisJumpTarget, directControlTarget_jump h.jump, hbases, h0]
      simp only [Option.map_some, BitVec.ofNat_eq_ofNat, BitVec.add_zero, BitVec.sub_zero]
    · rw [projectJumpTarget, hruntime, instructionJumpTarget, h.holds, hword, regionTarget,
        field_of_replaced]
      obtain ⟨hregion, hoffset⟩ := target_parts (s.memoryBase + pc + 4)
        ((w &&& (0x03ffffff : Word)) + ((s.memoryBase + address) >>> 2))
      constructor
      · intro heq
        rw [heq]
        exact hregion
      · intro heq
        refine eq_of_region_of_offset (heq.trans hregion.symm) (Eq.trans ?_ hoffset.symm)
        rw [field_add_base hbase]
        exact add_and_low _ ((target_parts _ _).2.trans (field_and_low _).symm)

/-- `j 0x100` without a relocation, and a jump that R_MIPS_26 relocates. -/
def jumpImage (relocations : List Relocation) : LoadedImage where
  entry := 0
  executableSections := [⟨0, [0x40, 0x00, 0x00, 0x08]⟩]
  loadSegments := [⟨⟨0, 4, 0⟩, [0x40, 0x00, 0x00, 0x08]⟩]
  relocations
  size := 4
  memory := copyBytes (fun _ => 0) 0 [0x40, 0x00, 0x00, 0x08]
  memorySize_eq := rfl
  memoryImage_eq := rfl
  aligned := by decide

/-- The unrelocated jump goes to 0x08804100 translated, to 0x00000100 by the hardware's rule. A
relocated one at 0x0ffffff8 goes to 0x000000f8 translated, to 0x100000f8 by the analysis. -/
theorem jumpTargets_ne :
    (let image := jumpImage [];
      let s := image.start 0x08804000
      (0, 0x08000040) ∈ image.instructions ∧ isJump 0x08000040 = true ∧
        projectJumpTarget zeroOperandHost image.toElfImage s 0 0x08000040 = 0x08804100 ∧
        instructionJumpTarget s (s.memoryBase + 0) 0x08000040 = 0x00000100) ∧
    (let image := jumpImage [⟨0, 4, 0, 0⟩];
      let s := image.start 0x0ffffff8
      projectJumpTarget zeroOperandHost image.toElfImage s 0 0x08000040 = 0x000000f8 ∧
        analysisJumpTarget image.toElfImage s 0 0x08000040 = some 0x100000f8) := by
  decide

theorem jumpTargets_agree_jumpImage :
    let image := jumpImage [⟨0, 4, 0, 0⟩];
    let s := image.start 0x08804000
    ∃ target, analysisJumpTarget image.toElfImage s 0 0x08000040 = some target ∧
      target = projectJumpTarget zeroOperandHost image.toElfImage s 0 0x08000040 := by
  intro image s
  have h : RelocatedJump 64 image s (applyRelocations 64 image.size.toNat 0x08804000 image.segments
      image.memory image.relocations).2 0 0x08000040 :=
    ⟨by decide, by decide, by decide, rfl, by decide⟩
  obtain ⟨-, -, h26⟩ := (jumpTargets_agree zeroOperandHost h).2 ⟨0, 4, 0, 0⟩ (by decide) rfl (by decide)
  obtain ⟨target, htarget, hiff⟩ := h26 rfl (by decide)
  have hvalue : analysisJumpTarget image.toElfImage s 0 0x08000040 = some 0x08804100 := by decide
  obtain rfl : target = 0x08804100 := Option.some.inj (htarget.symm.trans hvalue)
  exact ⟨0x08804100, htarget, hiff.2 (by decide)⟩

end Psprism
