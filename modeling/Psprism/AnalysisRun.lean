import Psprism.Analysis
import Psprism.Heap

/-!
# Runs of the analysis (`src/emitter/analysis.cpp`)

`potential_block_entries` and `discover_functions` with every read of a section or of the memory image checked, and
the loop over shard boundaries bounded by fuel: `none` is a read out of range, or a loop that needs more passes. The
boundary of the loop is a 32-bit address, and comes around where the section ends in the last shard or beyond; the test
of a relocated function pointer adds to its address in 32 bits (`analysis_runs_iff`). Otherwise the runs come to what
`potentialBlockEntries` and `discoverFunctions` say.
-/

namespace Psprism

/-- A shard size that `emit_project` accepts. -/
structure ShardSize where
  size : Word
  powerOfTwo : size &&& (size - 1) = 0
  minimum : 0x1000 ≤ size

section
variable {α β : Type} {f : α → Option β} {g : α → β} {l : List α}

theorem mapM_eq_map (h : ∀ a ∈ l, f a = some (g a)) : l.mapM f = some (l.map g) := by
  induction l with
  | nil => rfl
  | cons a l ih =>
    obtain ⟨ha, hl⟩ := List.forall_mem_cons.1 h
    rw [List.mapM_cons, ha, ih hl]
    rfl

theorem mapM_eq_none {a : α} (ha : a ∈ l) (h : f a = none) : l.mapM f = none := by
  induction l with
  | nil => cases ha
  | cons b l ih =>
    rw [List.mapM_cons]
    rcases List.mem_cons.1 ha with rfl | ha
    · rw [h]
      rfl
    · rw [ih ha]
      cases f b <;> rfl

end

/-! ### Checked reads -/

/-- Four bytes of a vector, at the indices the source computes. -/
def checkedWord (byteAt : Nat → Option Byte) (i j k l : Nat) : Option Word := do
  let a ← byteAt i
  let b ← byteAt j
  let c ← byteAt k
  let d ← byteAt l
  return a.setWidth 32 ||| (b.setWidth 32 <<< 8) ||| (c.setWidth 32 <<< 16) ||| (d.setWidth 32 <<< 24)

/-- `word_at`. -/
def ExecutableSection.readAt (sec : ExecutableSection) (offset : Nat) : Option Word :=
  checkedWord (sec.bytes[·]?) offset (offset + 1) (offset + 2) (offset + 3)

def ExecutableSection.instructionsRun (sec : ExecutableSection) : Option (List (Word × Word)) :=
  (List.range ((sec.bytes.length + 3) / 4)).mapM fun k =>
    (sec.readAt (4 * k)).map fun w => (sec.address + BitVec.ofNat 32 (4 * k), w)

/-! ### Shard boundaries -/

def boundaryLoop (sectionEnd : Nat) (shardSize : Word) : Nat → Word → Option (List Word)
  | 0, _ => none
  | fuel + 1, boundary =>
    if boundary.toNat < sectionEnd then
      (boundaryLoop sectionEnd shardSize fuel (boundary + shardSize)).map (boundary :: ·)
    else some []

def ExecutableSection.boundariesRun (fuel : Nat) (shardSize : Word) (sec : ExecutableSection) : Option (List Word) :=
  (boundaryLoop (sec.address.toNat + sec.bytes.length) shardSize fuel
    ((sec.address + shardSize - 1) &&& ~~~(shardSize - 1))).map (sec.address :: ·)

/-! ### The analyses -/

namespace LoadedImage
variable (image : LoadedImage)

def byteAt (i : Nat) : Option Byte := if i < image.size.toNat then some (image.memory i) else none

/-- The four bytes at a 32-bit address, whose indices come around. -/
def readAt (address : Word) : Option Word :=
  checkedWord image.byteAt address.toNat (address + 1).toNat (address + 2).toNat (address + 3).toNat

def rawPointersRun : Option (List Word) :=
  if ¬ image.relocations.isEmpty then some []
  else
    (List.range (image.size.toNat / 4)).mapM fun k =>
      (checkedWord image.byteAt (4 * k) (4 * k + 1) (4 * k + 2) (4 * k + 3)).map fun value =>
        if image.preferredBase ≠ 0 ∧ image.preferredBase ≤ value then value - image.preferredBase
        else value

/-- The test before a read of the image, without overflow. -/
def outside (address : Word) : Bool := address.toNat > image.size.toNat ∨ image.size.toNat - address.toNat < 4

/-- The pass of the loop over R_MIPS_HI16 relocations; `some none` continues. -/
def highLowPointerRun (high : Relocation) (rest : List Relocation) : Option (Option Word) :=
  if high.type ≠ 5 then some none
  else
    match rest.find? fun low => low.type = 6 ∧ low.targetSegment = high.targetSegment with
    | none => some none
    | some low =>
      match image.patchAddress high, image.patchAddress low, findLoadSegment image.toElfImage high.targetSegment with
      | some highAddress, some lowAddress, some target =>
        if image.outside highAddress ∨ image.outside lowAddress then some none
        else do
          let highWord ← image.readAt highAddress
          let lowWord ← image.readAt lowAddress
          return some (((highWord &&& 0xffff) <<< 16) + signedImmediate lowWord + target.address)
      | _, _, _ => some none

def highLowPointersRun : List Relocation → Option (List Word)
  | [] => some []
  | high :: rest => do
    let pointer ← image.highLowPointerRun high rest
    let pointers ← highLowPointersRun rest
    return pointer.toList ++ pointers

/-- The pass of the loop over R_MIPS_32 relocations. -/
def relocatedPointerRun (relocation : Relocation) : Option (Option Word) :=
  if relocation.type ≠ 2 then some none
  else
    match image.patchAddress relocation, findLoadSegment image.toElfImage relocation.targetSegment with
    | some address, some target =>
      if isExecutableWord image.toElfImage address ∨ image.outside address then some none
      else (image.readAt address).map fun value => some (value + target.address)
    | _, _ => some none

def potentialBlockEntriesRun (codeMap : Option CodeMap) (entry shardSize : Word) (fuel : Nat) : Option (List Word) := do
  let boundaries ← image.executableSections.mapM (·.boundariesRun fuel shardSize)
  let fromMap :=
    match codeMap with
    | none => []
    | some codeMap => codeMap.functionStarts ++ codeMap.blockEntries
  let instructions ← image.executableSections.mapM (·.instructionsRun)
  let raw ← image.rawPointersRun
  let highLow ← image.highLowPointersRun image.relocations
  let relocated ← image.relocations.mapM image.relocatedPointerRun
  return (entry :: boundaries.flatten ++ fromMap ++
    instructions.flatten.flatMap (controlEntries image.toElfImage) ++ raw ++ highLow ++
    relocated.filterMap id).filter (isExecutableWord image.toElfImage)

/-- The pass of `discover_functions` over R_MIPS_32 relocations, whose test adds in 32 bits. -/
def functionPointerRun (relocation : Relocation) : Option (Option Word) :=
  if relocation.type ≠ 2 then some none
  else
    match image.patchAddress relocation, findLoadSegment image.toElfImage relocation.targetSegment with
    | some address, some target =>
      if (address + 4).toNat ≤ image.size.toNat then
        (image.readAt address).map fun value => some (value + target.address)
      else some none
    | _, _ => some none

def scannedStartsRun (codeMap : Option CodeMap) : Option (List Word) := do
  let fromMap :=
    match codeMap with
    | none => []
    | some codeMap =>
      (if codeMap.entry ≠ 0 then [codeMap.entry] else []) ++ codeMap.functionRanges ++
        codeMap.functionSymbols
  let starts ← image.executableSections.mapM fun sec =>
    sec.instructionsRun.map (·.flatMap (image.instructionStarts sec))
  let pointers ← image.relocations.mapM image.functionPointerRun
  return image.entry :: fromMap ++ image.executableSections.map (·.address) ++ starts.flatten ++
    pointers.filterMap id

def discoverFunctionsRun (codeMap : Option CodeMap) : Option (List Word) :=
  let candidates :=
    match codeMap with
    | some codeMap' =>
      if codeMap'.functionStarts.isEmpty then image.scannedStartsRun codeMap else some codeMap'.functionStarts
    | none => image.scannedStartsRun codeMap
  candidates.map fun candidates =>
    ((candidates.filter fun address =>
      isExecutableWord image.toElfImage address ∧ address ∉ importStubs image.toElfImage).dedup).insertionSort
        (· ≤ ·)

/-- Both analyses come to an end, and read in range. -/
def AnalysisRuns (codeMap : Option CodeMap) (entry : Word) (shardSize : ShardSize) : Prop :=
  (∃ fuel, (image.potentialBlockEntriesRun codeMap entry shardSize.size fuel).isSome) ∧
    (image.discoverFunctionsRun codeMap).isSome

end LoadedImage

/-! ### Reads in range -/

theorem checkedWord_eq (byteAt : Nat → Option Byte) (bytes : Bytes) (i : Nat)
    (h : ∀ j, i ≤ j → j < i + 4 → byteAt j = some (bytes j)) :
    checkedWord byteAt i (i + 1) (i + 2) (i + 3) = some (readU32 bytes i) := by
  rw [checkedWord, h i (by omega) (by omega), h (i + 1) (by omega) (by omega), h (i + 2) (by omega) (by omega),
    h (i + 3) (by omega) (by omega)]
  rfl

theorem checkedWord_eq_none {byteAt : Nat → Option Byte} {i j k l : Nat}
    (h : byteAt i = none ∨ byteAt j = none ∨ byteAt k = none ∨ byteAt l = none) : checkedWord byteAt i j k l = none := by
  unfold checkedWord
  rcases h with h | h | h | h
  · simp [h]
  · cases byteAt i <;> simp [h]
  · cases byteAt i <;> cases byteAt j <;> simp [h]
  · cases byteAt i <;> cases byteAt j <;> cases byteAt k <;> simp [h]

namespace ExecutableSection
variable {sec : ExecutableSection}

theorem readAt_eq {offset : Nat} (h : offset + 4 ≤ sec.bytes.length) : sec.readAt offset = some (wordAt sec offset) := by
  refine checkedWord_eq _ (fun i => sec.bytes.getD i 0) _ fun j hj hlt => ?_
  have hlength : j < sec.bytes.length := by omega
  simp [hlength]

theorem instructionsRun_eq (h : sec.bytes.length % 4 = 0) : sec.instructionsRun = some sec.instructions := by
  refine mapM_eq_map fun k hk => ?_
  rw [List.mem_range] at hk
  rw [readAt_eq (by omega)]
  rfl

end ExecutableSection

/-! ### The boundaries come around or not -/

namespace ShardSize
variable (shard : ShardSize)

theorem exists_pow : ∃ k, shard.size.toNat = 2 ^ k := by
  have hmin : 0x1000 ≤ shard.size.toNat := shard.minimum
  have hne : shard.size.toNat ≠ 0 := by omega
  have hpred : (shard.size - 1).toNat = shard.size.toNat - 1 := by bv_omega
  have hand := congrArg BitVec.toNat shard.powerOfTwo
  rw [BitVec.toNat_and, hpred] at hand
  exact (Nat.and_sub_one_eq_zero_iff_isPowerOfTwo hne).1 hand

theorem pos : 0 < shard.size.toNat := by
  have hmin : 0x1000 ≤ shard.size.toNat := shard.minimum
  omega

/-- The top of the address space is a boundary. -/
theorem dvd_top : shard.size.toNat ∣ 2 ^ 32 := by
  obtain ⟨k, hk⟩ := shard.exists_pow
  have hlt := shard.size.isLt
  rw [hk] at hlt ⊢
  exact Nat.pow_dvd_pow 2 ((Nat.pow_lt_pow_iff_right (by decide)).1 hlt).le

variable {shard}

theorem dvd_alignUp (address : Word) :
    shard.size.toNat ∣ ((address + shard.size - 1) &&& ~~~(shard.size - 1)).toNat := by
  obtain ⟨k, hk⟩ := shard.exists_pow
  have hsum := toNat_alignUp hk address
  unfold alignUp at hsum
  have hdvd := Nat.dvd_sub_mod (n := 2 ^ k) (address + shard.size - 1).toNat
  rw [hk, show ((address + shard.size - 1) &&& ~~~(shard.size - 1)).toNat =
    (address + shard.size - 1).toNat - (address + shard.size - 1).toNat % 2 ^ k by omega]
  exact hdvd

theorem dvd_add {boundary : Word} (h : shard.size.toNat ∣ boundary.toNat) :
    shard.size.toNat ∣ (boundary + shard.size).toNat := by
  rw [BitVec.toNat_add]
  exact (Nat.dvd_mod_iff shard.dvd_top).2 (Nat.dvd_add h (Nat.dvd_refl _))

/-- A boundary is at or below the last one. -/
theorem le_last {boundary : Word} (h : shard.size.toNat ∣ boundary.toNat) :
    boundary.toNat ≤ 2 ^ 32 - shard.size.toNat := by
  obtain ⟨n, hn⟩ := h
  obtain ⟨m, hm⟩ := shard.dvd_top
  have hlt := boundary.isLt
  rw [hn, hm] at hlt ⊢
  have hnm : n < m := Nat.lt_of_mul_lt_mul_left hlt
  have hle := Nat.mul_le_mul_left shard.size.toNat (Nat.le_sub_one_of_lt hnm)
  rwa [Nat.mul_sub, Nat.mul_one] at hle

/-- Where the section ends behind the last boundary the loop never stops. -/
theorem boundaryLoop_eq_none {sectionEnd : Nat} (hend : 2 ^ 32 - shard.size.toNat < sectionEnd) (fuel : Nat)
    {boundary : Word} (h : shard.size.toNat ∣ boundary.toNat) :
    boundaryLoop sectionEnd shard.size fuel boundary = none := by
  induction fuel generalizing boundary with
  | zero => rfl
  | succ fuel ih =>
    have hlast := le_last h
    rw [boundaryLoop, if_pos (by omega), ih (dvd_add h)]
    rfl

/-- How often the loop passes. -/
def passes (shard : ShardSize) (sectionEnd : Nat) (boundary : Word) : Nat :=
  (sectionEnd - boundary.toNat + shard.size.toNat - 1) / shard.size.toNat

theorem passes_succ {sectionEnd : Nat} (hend : sectionEnd ≤ 2 ^ 32 - shard.size.toNat) {boundary : Word}
    (h : boundary.toNat < sectionEnd) :
    shard.passes sectionEnd boundary = shard.passes sectionEnd (boundary + shard.size) + 1 := by
  have hpos := shard.pos
  have hnext : (boundary + shard.size).toNat = boundary.toNat + shard.size.toNat := by
    rw [BitVec.toNat_add, Nat.mod_eq_of_lt (by omega)]
  rw [passes, passes, hnext, ← Nat.add_div_right _ hpos]
  rcases Nat.le_or_ge (boundary.toNat + shard.size.toNat) sectionEnd with hle | hle
  · congr 1
    omega
  · have hlast : sectionEnd - (boundary.toNat + shard.size.toNat) = 0 := by omega
    rw [hlast, Nat.zero_add, Nat.div_eq_of_lt_le (k := 1) (by omega) (by omega),
      Nat.div_eq_of_lt_le (k := 1) (by omega) (by omega)]

theorem boundaryLoop_eq {sectionEnd : Nat} (hend : sectionEnd ≤ 2 ^ 32 - shard.size.toNat) {fuel : Nat}
    {boundary : Word} (hfuel : shard.passes sectionEnd boundary < fuel) :
    boundaryLoop sectionEnd shard.size fuel boundary =
      some ((List.range (shard.passes sectionEnd boundary)).map fun k => boundary + BitVec.ofNat 32 k * shard.size) := by
  induction fuel generalizing boundary with
  | zero => omega
  | succ fuel ih =>
    rw [boundaryLoop]
    split_ifs with hlt
    · have hsucc := passes_succ hend hlt
      have hshift (k : Nat) : boundary + BitVec.ofNat 32 (k + 1) * shard.size =
          boundary + shard.size + BitVec.ofNat 32 k * shard.size := by
        rw [BitVec.ofNat_add, BitVec.add_mul, BitVec.add_assoc, BitVec.add_comm shard.size]
        simp
      rw [ih (by omega), hsucc, List.range_succ_eq_map, List.map_cons, List.map_map]
      simp [Function.comp_def, hshift]
    · have hzero : shard.passes sectionEnd boundary = 0 := by
        have hpos := shard.pos
        rw [passes, Nat.sub_eq_zero_of_le (Nat.not_lt.1 hlt)]
        exact Nat.div_eq_of_lt (by omega)
      rw [hzero]
      rfl

end ShardSize

/-- The section does not end in the last shard. -/
def ExecutableSection.EndsBelow (shard : ShardSize) (sec : ExecutableSection) : Prop :=
  sec.address.toNat + sec.bytes.length ≤ 2 ^ 32 - shard.size.toNat

instance (shard : ShardSize) (sec : ExecutableSection) : Decidable (sec.EndsBelow shard) :=
  inferInstanceAs (Decidable (_ ≤ _))

namespace ExecutableSection
variable {shard : ShardSize} {sec : ExecutableSection}

theorem boundariesRun_eq (h : sec.EndsBelow shard) {fuel : Nat} (hfuel : 2 ^ 32 ≤ fuel) :
    sec.boundariesRun fuel shard.size = some (sectionBoundaries shard.size sec) := by
  have hpasses : shard.passes (sec.address.toNat + sec.bytes.length)
      ((sec.address + shard.size - 1) &&& ~~~(shard.size - 1)) < fuel := by
    have hpos := shard.pos
    have hend : sec.address.toNat + sec.bytes.length ≤ 2 ^ 32 - shard.size.toNat := h
    refine lt_of_lt_of_le (Nat.div_lt_of_lt_mul ?_) hfuel
    have hmul : 2 ^ 32 ≤ shard.size.toNat * 2 ^ 32 := Nat.le_mul_of_pos_left _ hpos
    omega
  rw [boundariesRun, ShardSize.boundaryLoop_eq h hpasses]
  rfl

theorem boundariesRun_eq_none (h : ¬ sec.EndsBelow shard) (fuel : Nat) : sec.boundariesRun fuel shard.size = none := by
  rw [boundariesRun, ShardSize.boundaryLoop_eq_none (Nat.lt_of_not_le h) fuel (ShardSize.dvd_alignUp _)]
  rfl

end ExecutableSection

/-! ### The memory image -/

namespace LoadedImage
variable {image : LoadedImage}

theorem byteAt_eq_none {i : Nat} (h : image.size.toNat ≤ i) : image.byteAt i = none := if_neg (by omega)

theorem readAt_eq {address : Word} (h : address.toNat + 4 ≤ image.size.toNat) :
    image.readAt address = some (readU32 image.memory address.toNat) := by
  have hsize := image.size.isLt
  have hnext (n : Nat) (hn : n < 4) : (address + BitVec.ofNat 32 n).toNat = address.toNat + n := by
    rw [BitVec.toNat_add, BitVec.toNat_ofNat, Nat.mod_eq_of_lt (b := 2 ^ 32) (by omega), Nat.mod_eq_of_lt (by omega)]
  have hread := checkedWord_eq image.byteAt image.memory address.toNat fun j _ hj =>
    if_pos (by omega)
  rw [readAt, show (address + 1).toNat = address.toNat + 1 from hnext 1 (by omega),
    show (address + 2).toNat = address.toNat + 2 from hnext 2 (by omega),
    show (address + 3).toNat = address.toNat + 3 from hnext 3 (by omega), hread]

/-- No image has a byte at the top address. -/
theorem readAt_eq_none {address : Word} (h : image.size.toNat < address.toNat + 4) : image.readAt address = none := by
  have hsize := image.size.isLt
  have hlt := address.isLt
  refine checkedWord_eq_none ?_
  rcases Nat.lt_or_ge (address.toNat + 3) (2 ^ 32) with hbelow | habove
  · refine .inr (.inr (.inr (byteAt_eq_none ?_)))
    rw [BitVec.toNat_add, show (3 : Word).toNat = 3 from rfl, Nat.mod_eq_of_lt hbelow]
    omega
  · rcases (by omega : address.toNat = 2 ^ 32 - 1 ∨ address.toNat = 2 ^ 32 - 2 ∨ address.toNat = 2 ^ 32 - 3) with
      htop | htop | htop
    · exact .inl (byteAt_eq_none (by omega))
    · exact .inr (.inl (byteAt_eq_none (by bv_omega)))
    · exact .inr (.inr (.inl (byteAt_eq_none (by bv_omega))))

/-- The test of `potential_block_entries` is that of `memoryWord`. -/
theorem outside_iff {address : Word} : image.outside address = true ↔ image.size.toNat < address.toNat + 4 := by
  rw [outside, decide_eq_true_iff]
  omega

theorem memoryWord_of_outside {address : Word} (h : image.outside address = true) : image.memoryWord address = none :=
  if_neg (by rw [outside_iff] at h; omega)

theorem readAt_of_not_outside {address : Word} (h : ¬ image.outside address = true) :
    ∃ value, image.readAt address = some value ∧ image.memoryWord address = some value := by
  rw [outside_iff] at h
  exact ⟨_, readAt_eq (by omega), if_pos (by omega)⟩

theorem rawPointersRun_eq : image.rawPointersRun = some image.rawPointers := by
  rw [rawPointersRun, rawPointers]
  split_ifs
  · refine mapM_eq_map fun k hk => ?_
    rw [List.mem_range] at hk
    rw [checkedWord_eq image.byteAt image.memory (4 * k) fun j _ hj => if_pos (by omega)]
    rfl
  · rfl

theorem highLowPointerRun_eq (high : Relocation) (rest : List Relocation) :
    image.highLowPointerRun high rest = some (image.highLowPointer high rest) := by
  rw [highLowPointerRun, highLowPointer]
  by_cases htype : high.type = 5
  · rw [if_neg (by simp [htype]), if_neg (by simp [htype])]
    cases rest.find? fun low => low.type = 6 ∧ low.targetSegment = high.targetSegment with
    | none => rfl
    | some low =>
      cases hhigh : image.patchAddress high with
      | none => simp
      | some highAddress =>
        cases hlow : image.patchAddress low with
        | none => simp [hlow]
        | some lowAddress =>
          cases htarget : findLoadSegment image.toElfImage high.targetSegment with
          | none => simp [hlow]
          | some target =>
            by_cases hout : image.outside highAddress
            · simp [hlow, hout, memoryWord_of_outside hout]
            by_cases hout' : image.outside lowAddress
            · simp [hlow, hout', memoryWord_of_outside hout']
            obtain ⟨highWord, hread, hword⟩ := readAt_of_not_outside hout
            obtain ⟨lowWord, hread', hword'⟩ := readAt_of_not_outside hout'
            simp [hlow, hout, hout', hread, hword, hread', hword']
  · rw [if_pos htype, if_pos htype]
    rfl

theorem highLowPointersRun_eq (relocations : List Relocation) :
    image.highLowPointersRun relocations = some (image.highLowPointers relocations) := by
  induction relocations with
  | nil => rfl
  | cons high rest ih =>
    rw [highLowPointersRun, highLowPointerRun_eq, ih]
    rfl

theorem relocatedPointerRun_eq (r : Relocation) : image.relocatedPointerRun r = some (image.relocatedPointer r) := by
  rw [relocatedPointerRun, relocatedPointer]
  by_cases htype : r.type = 2
  · rw [if_neg (by simp [htype]), if_neg (by simp [htype])]
    cases htarget : findLoadSegment image.toElfImage r.targetSegment with
    | none => cases image.patchAddress r <;> simp
    | some target =>
      cases haddress : image.patchAddress r with
      | none => simp
      | some address =>
        by_cases hexecutable : isExecutableWord image.toElfImage address
        · simp [hexecutable]
        by_cases hout : image.outside address
        · simp [hexecutable, hout, memoryWord_of_outside hout]
        obtain ⟨value, hread, hword⟩ := readAt_of_not_outside hout
        simp [hexecutable, hout, hread, hword]
  · rw [if_pos htype, if_pos htype]
    rfl

/-- The test of `discover_functions` comes around. -/
def WrapsAround (image : LoadedImage) (address : Word) : Prop :=
  2 ^ 32 - 4 ≤ address.toNat ∧ (address + 4).toNat ≤ image.size.toNat

instance (address : Word) : Decidable (image.WrapsAround address) := inferInstanceAs (Decidable (_ ∧ _))

/-- A pointer relocation with both segments that the test lets pass only since it comes around. -/
def PassesOutside (image : LoadedImage) (r : Relocation) : Prop :=
  r.type = 2 ∧ (findLoadSegment image.toElfImage r.targetSegment).isSome ∧
    ∃ address ∈ image.patchAddress r, image.WrapsAround address

theorem functionPointerRun_eq {r : Relocation} (h : ¬ image.PassesOutside r) :
    image.functionPointerRun r = some (image.functionPointer r) := by
  rw [functionPointerRun, functionPointer]
  by_cases htype : r.type = 2
  · rw [if_neg (by simp [htype]), if_neg (by simp [htype])]
    cases htarget : findLoadSegment image.toElfImage r.targetSegment with
    | none => cases image.patchAddress r <;> simp
    | some target =>
      cases haddress : image.patchAddress r with
      | none => simp
      | some address =>
        have hwraps : ¬ image.WrapsAround address := fun hwraps =>
          h ⟨htype, by rw [htarget]; rfl, address, haddress, hwraps⟩
        by_cases htest : (address + 4).toNat ≤ image.size.toNat
        · have hread : image.readAt address = some (readU32 image.memory address.toNat) := by
            refine readAt_eq ?_
            rw [WrapsAround, not_and'] at hwraps
            have hbelow := hwraps htest
            rwa [BitVec.toNat_add, show (4 : Word).toNat = 4 from rfl, Nat.mod_eq_of_lt (by omega)] at htest
          dsimp only
          rw [if_pos htest, hread]
          exact congrArg some (if_pos htest).symm
        · dsimp only
          rw [if_neg htest]
          exact congrArg some (if_neg htest).symm
  · rw [if_pos htype, if_pos htype]
    rfl

theorem functionPointerRun_eq_none {r : Relocation} (h : image.PassesOutside r) : image.functionPointerRun r = none := by
  obtain ⟨htype, htarget, address, haddress, hwraps, htest⟩ := h
  obtain ⟨target, htarget⟩ := Option.isSome_iff_exists.1 htarget
  have hsize := image.size.isLt
  have haddress : image.patchAddress r = some address := haddress
  rw [functionPointerRun, if_neg (by simp [htype]), haddress, htarget]
  dsimp only
  rw [if_pos htest, readAt_eq_none (by omega)]
  rfl

/-! ### The analyses run -/

/-- A code map that lists function starts leaves nothing to scan. -/
def Scans (codeMap : Option CodeMap) : Prop := ∀ c ∈ codeMap, c.functionStarts = []

variable {codeMap : Option CodeMap} {entry : Word} {shard : ShardSize}

theorem potentialBlockEntriesRun_eq (h : ∀ sec ∈ image.executableSections, sec.EndsBelow shard) {fuel : Nat}
    (hfuel : 2 ^ 32 ≤ fuel) :
    image.potentialBlockEntriesRun codeMap entry shard.size fuel =
      some (image.potentialBlockEntries codeMap entry shard.size) := by
  have hboundaries := mapM_eq_map fun sec hsec => ExecutableSection.boundariesRun_eq (h sec hsec) hfuel
  have hinstructions := mapM_eq_map fun sec hsec =>
    ExecutableSection.instructionsRun_eq (image.aligned sec hsec).2
  have hrelocated := mapM_eq_map fun r (_ : r ∈ image.relocations) => image.relocatedPointerRun_eq r
  unfold potentialBlockEntriesRun
  rw [hboundaries, hinstructions, rawPointersRun_eq, highLowPointersRun_eq, hrelocated]
  simp only [Option.bind_eq_bind, Option.bind_some, Option.pure_def, potentialBlockEntries, List.filterMap_map,
    Function.id_comp, ← List.flatMap_def]
  rfl

theorem potentialBlockEntriesRun_eq_none {sec : ExecutableSection} (hsec : sec ∈ image.executableSections)
    (h : ¬ sec.EndsBelow shard) (fuel : Nat) :
    image.potentialBlockEntriesRun codeMap entry shard.size fuel = none := by
  unfold potentialBlockEntriesRun
  rw [mapM_eq_none hsec (ExecutableSection.boundariesRun_eq_none h fuel)]
  rfl

theorem scannedStartsRun_eq (h : ∀ r ∈ image.relocations, ¬ image.PassesOutside r) :
    image.scannedStartsRun codeMap = some (image.scannedStarts codeMap) := by
  have hinstructions := mapM_eq_map fun sec hsec => congrArg (Option.map (·.flatMap (image.instructionStarts sec)))
    (ExecutableSection.instructionsRun_eq (image.aligned sec hsec).2)
  have hpointers := mapM_eq_map fun r hr => functionPointerRun_eq (h r hr)
  unfold scannedStartsRun
  rw [hinstructions, hpointers]
  simp only [Option.bind_eq_bind, Option.bind_some, Option.pure_def, List.filterMap_map, Function.id_comp,
    ← List.flatMap_def]
  rfl

theorem scannedStartsRun_eq_none {r : Relocation} (hr : r ∈ image.relocations) (h : image.PassesOutside r) :
    image.scannedStartsRun codeMap = none := by
  unfold scannedStartsRun
  rw [mapM_eq_none hr (functionPointerRun_eq_none h)]
  cases image.executableSections.mapM fun sec => sec.instructionsRun.map (·.flatMap (image.instructionStarts sec)) <;>
    rfl

theorem discoverFunctionsRun_eq (h : Scans codeMap → ∀ r ∈ image.relocations, ¬ image.PassesOutside r) :
    image.discoverFunctionsRun codeMap = some (image.discoverFunctions codeMap) := by
  unfold discoverFunctionsRun discoverFunctions startCandidates
  cases codeMap with
  | none =>
    dsimp only
    rw [scannedStartsRun_eq (h nofun)]
    rfl
  | some c =>
    by_cases hempty : c.functionStarts.isEmpty
    · have hscans : Scans (some c) := by
        rintro _ ⟨⟩
        exact List.isEmpty_iff.1 hempty
      simp only [hempty, if_true, scannedStartsRun_eq (h hscans)]
      rfl
    · simp only [hempty]
      rfl

theorem discoverFunctionsRun_eq_none (hscans : Scans codeMap) {r : Relocation} (hr : r ∈ image.relocations)
    (h : image.PassesOutside r) : image.discoverFunctionsRun codeMap = none := by
  unfold discoverFunctionsRun
  cases codeMap with
  | none => simp only [scannedStartsRun_eq_none hr h, Option.map_none]
  | some c =>
    have hempty : c.functionStarts = [] := hscans c rfl
    simp only [hempty, List.isEmpty_nil, if_true, scannedStartsRun_eq_none hr h, Option.map_none]

end LoadedImage

open LoadedImage

/-- The analyses come to an end and read in range, unless a section ends in the last shard or beyond, or the functions
are searched for and a pointer relocation patches the last bytes of the address space. -/
theorem analysis_runs_iff (image : LoadedImage) (codeMap : Option CodeMap) (entry : Word) (shard : ShardSize) :
    image.AnalysisRuns codeMap entry shard ↔
      (∀ sec ∈ image.executableSections, sec.EndsBelow shard) ∧
      (Scans codeMap → ∀ r ∈ image.relocations, ¬ image.PassesOutside r) := by
  constructor
  · rintro ⟨⟨fuel, hentries⟩, hfunctions⟩
    refine ⟨fun sec hsec => ?_, fun hscans r hr hpasses => ?_⟩
    · by_contra hends
      rw [potentialBlockEntriesRun_eq_none hsec hends] at hentries
      cases hentries
    · rw [discoverFunctionsRun_eq_none hscans hr hpasses] at hfunctions
      cases hfunctions
  · rintro ⟨hsections, hpointers⟩
    refine ⟨⟨2 ^ 32, ?_⟩, ?_⟩
    · rw [potentialBlockEntriesRun_eq hsections le_rfl]
      rfl
    · rw [discoverFunctionsRun_eq hpointers]
      rfl

/-- `shard_size` of the options. -/
def defaultShardSize : ShardSize := ⟨0x4000, by decide, by decide⟩

/-- An image with one section, of the word `nop`, and one load segment of it. -/
def nopImage (address : Word) (haddress : address.toNat % 4 = 0) (relocations : List Relocation) : LoadedImage where
  entry := 0
  executableSections := [⟨address, [0, 0, 0, 0]⟩]
  loadSegments := [⟨⟨0, 4, 0⟩, [0, 0, 0, 0]⟩]
  relocations
  size := 4
  memory := copyBytes (fun _ => 0) 0 [0, 0, 0, 0]
  memorySize_eq := rfl
  memoryImage_eq := rfl
  aligned := by simp [haddress]

/-- A section at the top of the address space, and a pointer relocation of its last word. -/
theorem analysis_stops :
    ¬ (nopImage 0xfffffffc (by decide) []).AnalysisRuns none 0 defaultShardSize ∧
      ¬ (nopImage 0 (by decide) [⟨0xfffffffc, 2, 0, 0⟩]).AnalysisRuns none 0 defaultShardSize := by
  refine ⟨fun hruns => ?_, fun hruns => ?_⟩
  · obtain ⟨fuel, hentries⟩ := hruns.1
    rw [potentialBlockEntriesRun_eq_none (List.mem_singleton_self _) (by decide)] at hentries
    cases hentries
  · have hpasses : (nopImage 0 (by decide) [⟨0xfffffffc, 2, 0, 0⟩]).PassesOutside ⟨0xfffffffc, 2, 0, 0⟩ :=
      ⟨rfl, rfl, 0xfffffffc, rfl, by decide⟩
    have hscans : Scans none := nofun
    have hfunctions := hruns.2
    rw [discoverFunctionsRun_eq_none hscans (List.mem_singleton_self _) hpasses] at hfunctions
    cases hfunctions

end Psprism
