import Mathlib.Order.Interval.Finset.Nat
import Psprism.Fpl
import Psprism.ThreadStack
import Psprism.Vpl

/-!
# The memory of kernel objects

Threads, fixed pools, variable pools and partition blocks take guest memory when they are made. What
deleting them gives back is compared here by `total_free_size`.

- A thread gives nothing back, neither when it is deleted nor when its creation fails half way.
- The others give back their blocks, but not the bytes that `allocate_heap` skips when it rounds the heap
  cursor up. A fixed pool that takes several blocks from the cursor skips bytes before each of them, unless
  the block size is a multiple of 64.
-/

namespace Psprism
open Interleaving

namespace Heap

def freeBytes (h : Heap) : Nat :=
  h.stackCursor.toNat - h.heapCursor.toNat + (h.freeHeapBlocks.map (·.size.toNat)).sum

/-- `total_free_size` of `memory_state.hpp`. -/
def totalFreeSize (h : Heap) : Word := BitVec.ofNat 32 (min h.freeBytes 0xffffffff)

/-- `allocate_heap` finds a free block. -/
def FitsBlock (h : Heap) (size alignment : Word) : Prop :=
  ∃ block ∈ h.freeHeapBlocks, block.fits size alignment = true

instance (h : Heap) (size alignment : Word) : Decidable (h.FitsBlock size alignment) :=
  inferInstanceAs (Decidable (∃ block ∈ h.freeHeapBlocks, _))

/-- `allocate_heap` can move the cursor. -/
def FitsCursor (h : Heap) (size alignment : Word) : Prop :=
  ¬ (size > h.stackCursor ∨ alignUp h.heapCursor alignment > h.stackCursor - size)

instance (h : Heap) (size alignment : Word) : Decidable (h.FitsCursor size alignment) :=
  inferInstanceAs (Decidable (¬ _))

/-- `allocate_stack` has a size to cut off and room for it. -/
def FitsStack (h : Heap) (size : Word) : Prop :=
  alignUp size 64 ≠ 0 ∧ ¬ (alignUp size 64 > h.stackCursor ∨ h.stackCursor - alignUp size 64 < h.heapCursor)

instance (h : Heap) (size : Word) : Decidable (h.FitsStack size) := inferInstanceAs (Decidable (_ ∧ _))

/-- The block comes from the cursor, and the cursor is not aligned. -/
def Pads (h : Heap) (size alignment : Word) : Prop :=
  ¬ h.FitsBlock size alignment ∧ h.FitsCursor size alignment ∧ alignUp h.heapCursor alignment ≠ h.heapCursor

instance (h : Heap) (size alignment : Word) : Decidable (h.Pads size alignment) :=
  inferInstanceAs (Decidable (_ ∧ _ ∧ _))

end Heap

def roundUp (size : Nat) : Nat := (size + 63) / 64 * 64

/-- How many blocks of a fixed pool fit into a free block, one behind the other at multiples of 64. -/
def MemoryBlock.capacity (block : MemoryBlock) (blockSize : Word) : Nat :=
  let last := block.address.toNat + block.size.toNat
  let behind := (alignUp block.address 64).toNat + blockSize.toNat
  if behind ≤ last then (last - behind) / roundUp blockSize.toNat + 1 else 0

def Heap.capacity (h : Heap) (blockSize : Word) : Nat :=
  (h.freeHeapBlocks.map (·.capacity blockSize)).sum

namespace VplRun

def sceKernelDeleteVpl (r : VplRun) (uid : Int) : VplRun × VplReply :=
  match r.pools.lookup uid with
  | none => (r, {})
  | some p =>
    ({ r with
       memory := { r.memory with
         heap := r.memory.heap.freeHeap p.pool.backing
         live := r.memory.live.erase p.pool.backing }
       pools := r.pools.eraseP (·.1 = uid) }, { v0 := some 0 })

end VplRun

/-- The objects with guest memory, and the numbers for new ones, which all kinds share. -/
structure KernelRun where
  memory : HeapRun
  guestExecutor : Bool
  threads : List KernelThread := []
  fixedPools : List (Int × FixedPoolRun) := []
  variablePools : List (Int × PoolRun) := []
  memoryBlocks : List (Int × MemoryBlock) := []
  nextUid : Int := 0x100

inductive Creation
  | thread (stackSize : Word)
  | fixedPool (blockSize blockCount : Word)
  | variablePool (size : Word)
  | partition (size : Word)
deriving DecidableEq

namespace KernelRun

def sceKernelAllocPartitionMemory (r : KernelRun) (size : Word) : KernelRun × Word :=
  let (address, heap) := r.memory.heap.allocateHeap size 64
  if address = 0 then ({ r with memory := { r.memory with heap } }, 0x80020190)
  else
    let block := ⟨address, size⟩
    ({ r with
       memory := { r.memory with heap, live := block :: r.memory.live }
       memoryBlocks := (r.nextUid, block) :: r.memoryBlocks
       nextUid := r.nextUid + 1 }, BitVec.ofInt 32 r.nextUid)

def sceKernelFreePartitionMemory (r : KernelRun) (uid : Int) : KernelRun × Word :=
  match r.memoryBlocks.lookup uid with
  | none => (r, 0x8002013a)
  | some block =>
    ({ r with
       memory := { r.memory with heap := r.memory.heap.freeHeap block, live := r.memory.live.erase block }
       memoryBlocks := r.memoryBlocks.eraseP (·.1 = uid) }, 0)

def threadRun (r : KernelRun) : ThreadRun := ⟨r.memory, r.guestExecutor, r.threads, r.nextUid⟩

/-- The call that makes the object. -/
def create (r : KernelRun) : Creation → KernelRun
  | .thread stackSize =>
    let t := (r.threadRun.sceKernelCreateThread stackSize).1
    { r with memory := t.memory, threads := t.threads, nextUid := t.nextUid }
  | .fixedPool blockSize blockCount =>
    let f := (FplRun.sceKernelCreateFpl ⟨r.memory, r.fixedPools, r.nextUid⟩ blockSize blockCount).1
    { r with memory := f.memory, fixedPools := f.pools, nextUid := f.nextUid }
  | .variablePool size =>
    let v := (VplRun.sceKernelCreateVpl ⟨r.memory, r.variablePools, r.nextUid⟩ size).1
    { r with memory := v.memory, variablePools := v.pools, nextUid := v.nextUid }
  | .partition size => (r.sceKernelAllocPartitionMemory size).1

/-- The call that deletes such an object. -/
def delete (r : KernelRun) (uid : Int) : Creation → KernelRun
  | .thread _ =>
    let t := (r.threadRun.sceKernelDeleteThread uid).1
    { r with memory := t.memory, threads := t.threads }
  | .fixedPool _ _ =>
    let f := (FplRun.sceKernelDeleteFpl ⟨r.memory, r.fixedPools, r.nextUid⟩ uid).1
    { r with memory := f.memory, fixedPools := f.pools }
  | .variablePool _ =>
    let v := (VplRun.sceKernelDeleteVpl ⟨r.memory, r.variablePools, r.nextUid⟩ uid).1
    { r with memory := v.memory, variablePools := v.pools }
  | .partition _ => (r.sceKernelFreePartitionMemory uid).1

/-- A call that fails, which is one that takes no number, leaves the total free size as it was, and one that
succeeds does together with the deletion. -/
def Balanced (r : KernelRun) (creation : Creation) : Prop :=
  if (r.create creation).nextUid = r.nextUid then
    (r.create creation).memory.heap.totalFreeSize = r.memory.heap.totalFreeSize
  else
    ((r.create creation).delete r.nextUid creation).memory.heap.totalFreeSize = r.memory.heap.totalFreeSize

instance (r : KernelRun) (creation : Creation) : Decidable (r.Balanced creation) :=
  inferInstanceAs (Decidable (if (r.create creation).nextUid = r.nextUid then
    (r.create creation).memory.heap.totalFreeSize = r.memory.heap.totalFreeSize else (_ : Word) = _))

end KernelRun

/-- No byte stays behind: nothing is cut off for a thread, and no other object skips bytes at the cursor.
The blocks of a fixed pool come from the cursor when `capacity` is used up. -/
def Heap.GivesBack (h : Heap) : Creation → Prop
  | .thread stackSize =>
    ¬ h.FitsStack (ThreadRun.requestedStack stackSize) ∧ ¬ h.FitsBlock 0x100 64 ∧ ¬ h.FitsCursor 0x100 64
  | .fixedPool blockSize blockCount =>
    blockSize = 0 ∨ blockCount.toNat ≤ h.capacity blockSize ∨ ¬ h.FitsCursor blockSize 64 ∨
      alignUp h.heapCursor 64 = h.heapCursor ∧
        (64 ∣ blockSize.toNat ∨ blockCount.toNat = h.capacity blockSize + 1 ∨
          ¬ Heap.FitsCursor { h with heapCursor := h.heapCursor + blockSize } blockSize 64)
  | .variablePool size => size = 0 ∨ ¬ h.Pads size 8
  | .partition size => ¬ h.Pads size 64

instance (h : Heap) : DecidablePred h.GivesBack
  | .thread _ => inferInstanceAs (Decidable (_ ∧ _ ∧ _))
  | .fixedPool _ _ => inferInstanceAs (Decidable (_ ∨ _ ∨ _ ∨ _ ∧ (_ ∨ _ ∨ _)))
  | .variablePool _ => inferInstanceAs (Decidable (_ ∨ _))
  | .partition _ => inferInstanceAs (Decidable (¬ _))

/-! ### The ledger of the heap -/

namespace MemoryBlock

theorem toNat_join {previous current : MemoryBlock} (hp : previous.Bounded) (hc : current.Bounded)
    (h : previous.address + previous.size = current.address) :
    (previous.size + current.size).toNat = previous.size.toNat + current.size.toNat := by
  unfold Bounded at hp hc
  have haddress := congrArg BitVec.toNat h
  rw [BitVec.toNat_add, Nat.mod_eq_of_lt hp] at haddress
  rw [BitVec.toNat_add]
  omega

theorem sum_leftOver {block : MemoryBlock} (hb : block.Bounded) {address size : Word}
    (hle : block.address.toNat ≤ address.toNat)
    (hend : address.toNat + size.toNat ≤ block.address.toNat + block.size.toNat) :
    ((block.leftOver address size).map (·.size.toNat)).sum + size.toNat = block.size.toNat := by
  unfold Bounded at hb
  have hfront : (address - block.address).toNat = address.toNat - block.address.toNat := by
    rw [BitVec.toNat_sub]
    omega
  have hcut : (address + size).toNat = address.toNat + size.toNat := by
    rw [BitVec.toNat_add]
    omega
  have hlast : (block.address + block.size).toNat = block.address.toNat + block.size.toNat := by
    rw [BitVec.toNat_add]
    omega
  have hback : (block.address + block.size - (address + size)).toNat =
      block.address.toNat + block.size.toNat - (address.toNat + size.toNat) := by
    rw [BitVec.toNat_sub, hcut, hlast]
    omega
  unfold leftOver
  split_ifs with h1 h2 h2 <;>
    rw [gt_iff_lt, BitVec.lt_def] at h1 <;>
    rw [BitVec.lt_def, hcut, hlast] at h2 <;>
    simp only [List.map_append, List.map_cons, List.map_nil, List.append_nil, List.nil_append, List.sum_append,
      List.sum_cons, List.sum_nil, hfront, hback] <;>
    omega

end MemoryBlock

theorem sum_mergeAdjacent {previous : MemoryBlock} {blocks : List MemoryBlock}
    (hb : ∀ b ∈ previous :: blocks, b.Bounded) :
    ((mergeAdjacent previous blocks).map (·.size.toNat)).sum =
      ((previous :: blocks).map (·.size.toNat)).sum := by
  induction blocks generalizing previous with
  | nil => rfl
  | cons current rest ih =>
    have hp := hb previous (by simp)
    have hc := hb current (by simp)
    have hrest : ∀ b ∈ rest, b.Bounded := fun b h => hb b (by simp [h])
    unfold mergeAdjacent
    split_ifs with hadjacent
    · obtain ⟨hbounded, -, -⟩ := MemoryBlock.range_join hp hc hadjacent
      rw [ih (List.forall_mem_cons.2 ⟨hbounded, hrest⟩)]
      simp only [List.map_cons, List.sum_cons, MemoryBlock.toNat_join hp hc hadjacent]
      omega
    · rw [List.map_cons, List.sum_cons, ih (List.forall_mem_cons.2 ⟨hc, hrest⟩)]
      rfl

theorem sum_putBack {blocks : List MemoryBlock} {block : MemoryBlock} (hb : ∀ b ∈ block :: blocks, b.Bounded) :
    ((putBack blocks block).map (·.size.toNat)).sum =
      block.size.toNat + (blocks.map (·.size.toNat)).sum := by
  obtain ⟨first, rest, hperm, -, hput⟩ := putBack_cases blocks block
  rw [hput, sum_mergeAdjacent fun b hmem => hb b (hperm.mem_iff.1 hmem), (hperm.map _).sum_eq,
    List.map_cons, List.sum_cons]

theorem ncard_Ico (a b : Nat) : (Set.Ico a b).ncard = b - a := by
  rw [← Finset.coe_Ico, Set.ncard_coe_finset, Nat.card_Ico]

namespace HeapRun.Inv
variable {m : ConfiguredMemory} {r : HeapRun}

theorem freeBytes_le (h : r.Inv m) : r.heap.freeBytes ≤ m.size := by
  have hsub : (r.heap.middle :: r.heap.freeHeapBlocks.map MemoryBlock.range).Sublist (r.regions m) := by
    refine ((List.Sublist.cons_cons _ ?_).cons _)
    refine List.Sublist.map _ ?_
    exact (List.sublist_append_right _ _).trans (List.sublist_append_left _ _)
  have hle := (h.packed.sublist hsub).sum_ncard_le (Set.finite_Ico _ _)
  have hsizes : (r.heap.freeHeapBlocks.map MemoryBlock.range).map Set.ncard =
      r.heap.freeHeapBlocks.map (·.size.toNat) := by
    rw [List.map_map]
    refine List.map_congr_left fun block _ => ?_
    exact (ncard_Ico _ _).trans (Nat.add_sub_cancel_left _ _)
  rw [List.map_cons, List.sum_cons, hsizes, Heap.middle, ConfiguredMemory.range, ncard_Ico, ncard_Ico] at hle
  unfold Heap.freeBytes
  omega

theorem freeBytes_lt (h : r.Inv m) : r.heap.freeBytes < 0xffffffff := by
  have hle := h.freeBytes_le
  have hfits := m.fits
  omega

end HeapRun.Inv

/-- The cut to 32 bits loses nothing. -/
theorem Heap.totalFreeSize_eq_iff {h h' : Heap} (hlt : h.freeBytes < 0xffffffff) (hlt' : h'.freeBytes < 0xffffffff) :
    h.totalFreeSize = h'.totalFreeSize ↔ h.freeBytes = h'.freeBytes := by
  unfold totalFreeSize
  rw [min_eq_left hlt.le, min_eq_left hlt'.le]
  refine ⟨fun heq => ?_, fun heq => by rw [heq]⟩
  have := congrArg BitVec.toNat heq
  rw [BitVec.toNat_ofNat, BitVec.toNat_ofNat] at this
  omega

namespace HeapRun.Inv
variable {m : PlacedMemory} {r : HeapRun}

/-- The bytes that the cursor skips. -/
theorem pad_bounds (h : r.Inv m.toConfiguredMemory) {alignment : Word} (ha : IsAlignment alignment) :
    r.heap.heapCursor.toNat ≤ (alignUp r.heap.heapCursor alignment).toNat := (alignUp_bounds ha h.cursor).1

theorem fitsCursor_iff (h : r.Inv m.toConfiguredMemory) (size alignment : Word) :
    r.heap.FitsCursor size alignment ↔
      (alignUp r.heap.heapCursor alignment).toNat + size.toNat ≤ r.heap.stackCursor.toNat := by
  have hstack := h.stack
  have hfits := m.fits
  unfold Heap.FitsCursor
  rw [not_or, gt_iff_lt, gt_iff_lt, BitVec.lt_def, BitVec.lt_def, BitVec.toNat_sub]
  omega

end HeapRun.Inv

/-- The bytes that the next block skips. -/
def Heap.padding (h : Heap) (size alignment : Word) : Nat :=
  if h.FitsBlock size alignment ∨ ¬ h.FitsCursor size alignment then 0
  else (alignUp h.heapCursor alignment).toNat - h.heapCursor.toNat

namespace HeapRun.Inv
variable {m : PlacedMemory} {r : HeapRun} {alignment : Word}

theorem padding_eq_zero (h : r.Inv m.toConfiguredMemory) (ha : IsAlignment alignment) (size : Word) :
    r.heap.padding size alignment = 0 ↔ ¬ r.heap.Pads size alignment := by
  have hle := h.pad_bounds ha
  unfold Heap.padding Heap.Pads
  split_ifs with hfits
  · tauto
  · rw [not_or, not_not] at hfits
    constructor
    · intro hzero hpads
      exact hpads.2.2 (BitVec.eq_of_toNat_eq (by omega))
    · intro hpads
      have heq : alignUp r.heap.heapCursor alignment = r.heap.heapCursor := by
        by_contra hne
        exact hpads ⟨hfits.1, hfits.2, hne⟩
      rw [heq, Nat.sub_self]

theorem sixtyFour_le_base (m : PlacedMemory) : 64 ≤ m.base.toNat := by
  have hdvd := m.base_aligned
  have hpos : m.base.toNat ≠ 0 := fun hzero => m.base_ne_zero (BitVec.eq_of_toNat_eq hzero)
  omega

theorem find?_eq_none_of_not_fitsBlock {heap : Heap} {size : Word} (hnot : ¬ heap.FitsBlock size alignment) :
    heap.freeHeapBlocks.find? (MemoryBlock.fits size alignment) = none :=
  List.find?_eq_none.2 fun block hmem hfits => hnot ⟨block, hmem, hfits⟩

/-- A free block gives a part of the size asked for, and nothing else gets lost. -/
theorem freeBytes_allocateHeap_of_fitsBlock (h : r.Inv m.toConfiguredMemory) {size : Word}
    (hfits : r.heap.FitsBlock size alignment) :
    (r.heap.allocateHeap size alignment).1 ≠ 0 ∧
      (r.heap.allocateHeap size alignment).2.freeBytes + size.toNat = r.heap.freeBytes := by
  cases hfind : r.heap.freeHeapBlocks.find? (MemoryBlock.fits size alignment) with
  | none =>
    obtain ⟨block, hmem, hfit⟩ := hfits
    exact absurd hfit (List.find?_eq_none.1 hfind block hmem)
  | some block =>
    have hbase := sixtyFour_le_base m
    obtain ⟨hlow, -, hbounded⟩ := h.free (List.mem_of_find?_eq_some hfind)
    obtain ⟨hle, hend⟩ := (MemoryBlock.fits_iff hbounded).1 (List.find?_some hfind)
    have hsum := MemoryBlock.sum_leftOver hbounded hle hend
    have hperm := ((perm_of_find? hfind).map (·.size.toNat)).sum_eq
    have halloc : r.heap.allocateHeap size alignment = (alignUp block.address alignment,
        { r.heap with freeHeapBlocks := r.heap.freeHeapBlocks.eraseP (MemoryBlock.fits size alignment) ++
          block.leftOver (alignUp block.address alignment) size }) := by
      rw [Heap.allocateHeap, hfind]
    rw [halloc]
    constructor
    · intro hzero
      have := congrArg BitVec.toNat hzero
      simp at this
      omega
    · simp only [Heap.freeBytes, hperm, List.map_append, List.map_cons, List.sum_append, List.sum_cons]
      omega

/-- The cursor moves on to the end of the new block, and skips the bytes before it. -/
theorem freeBytes_allocateHeap_of_fitsCursor (h : r.Inv m.toConfiguredMemory) (ha : IsAlignment alignment)
    {size : Word} (hnot : ¬ r.heap.FitsBlock size alignment) (hcursor : r.heap.FitsCursor size alignment) :
    (r.heap.allocateHeap size alignment).1 ≠ 0 ∧
      (r.heap.allocateHeap size alignment).2.freeBytes + size.toNat + r.heap.padding size alignment =
        r.heap.freeBytes := by
  have hbase := sixtyFour_le_base m
  have hstack := h.stack
  have hfits := m.fits
  have hb := congrArg BitVec.toNat h.base
  have hle := h.pad_bounds ha
  have hroom := (h.fitsCursor_iff size alignment).1 hcursor
  have halloc : r.heap.allocateHeap size alignment =
      (r.heap.memoryBase + alignUp r.heap.heapCursor alignment,
        { r.heap with heapCursor := alignUp r.heap.heapCursor alignment + size }) := by
    rw [Heap.allocateHeap, find?_eq_none_of_not_fitsBlock hnot]
    exact if_neg hcursor
  have hnew : (alignUp r.heap.heapCursor alignment + size).toNat =
      (alignUp r.heap.heapCursor alignment).toNat + size.toNat := by
    rw [BitVec.toNat_add]
    omega
  rw [halloc]
  constructor
  · intro hzero
    have := congrArg BitVec.toNat hzero
    rw [BitVec.toNat_add, Nat.mod_eq_of_lt (by omega)] at this
    simp at this
    omega
  · rw [Heap.padding, if_neg (not_or.2 ⟨hnot, not_not.2 hcursor⟩)]
    simp only [Heap.freeBytes, hnew]
    omega

/-- A block is given exactly when one fits; the free bytes lose it and the skipped ones. -/
theorem freeBytes_allocateHeap (h : r.Inv m.toConfiguredMemory) (ha : IsAlignment alignment) (size : Word) :
    ((r.heap.allocateHeap size alignment).1 = 0 ↔
        ¬ r.heap.FitsBlock size alignment ∧ ¬ r.heap.FitsCursor size alignment) ∧
      (r.heap.allocateHeap size alignment).2.freeBytes +
        (if (r.heap.allocateHeap size alignment).1 = 0 then 0 else size.toNat) +
          r.heap.padding size alignment = r.heap.freeBytes := by
  by_cases hfits : r.heap.FitsBlock size alignment
  · obtain ⟨hne, hbytes⟩ := freeBytes_allocateHeap_of_fitsBlock h hfits
    refine ⟨⟨fun hzero => absurd hzero hne, fun hnot => absurd hfits hnot.1⟩, ?_⟩
    rw [if_neg hne, Heap.padding, if_pos (.inl hfits)]
    exact hbytes
  by_cases hcursor : r.heap.FitsCursor size alignment
  · obtain ⟨hne, hbytes⟩ := freeBytes_allocateHeap_of_fitsCursor h ha hfits hcursor
    refine ⟨⟨fun hzero => absurd hzero hne, fun hnot => absurd hcursor hnot.2⟩, ?_⟩
    rw [if_neg hne]
    exact hbytes
  · have halloc : r.heap.allocateHeap size alignment = (0, r.heap) := by
      rw [Heap.allocateHeap, find?_eq_none_of_not_fitsBlock hfits]
      exact if_pos (not_not.1 hcursor)
    rw [halloc]
    refine ⟨⟨fun _ => ⟨hfits, hcursor⟩, fun _ => rfl⟩, ?_⟩
    rw [if_pos rfl, Heap.padding, if_pos (.inr hcursor)]
    rfl

theorem freeBytes_freeHeap (h : r.Inv m.toConfiguredMemory) {block : MemoryBlock} (hmem : block ∈ r.live)
    (hne : block.address ≠ 0) : (r.heap.freeHeap block).freeBytes = r.heap.freeBytes + block.size.toNat := by
  unfold Heap.freeHeap
  split_ifs with hnull
  · rcases hnull with hnull | hnull
    · exact absurd hnull hne
    · rw [hnull]
      rfl
  · obtain ⟨-, -, hbounded⟩ := MemoryBlock.bounded_of_inside (h.live hmem) (not_or.1 hnull).2
    have hsum := sum_putBack (List.forall_mem_cons.2 ⟨hbounded, fun b hb => (h.free hb).2.2⟩)
    simp only [Heap.freeBytes, hsum]
    omega

theorem freeBytes_freeBlocks {blocks live : List MemoryBlock} (h : r.Inv m.toConfiguredMemory)
    (hlive : r.live = blocks ++ live) (hne : ∀ block ∈ blocks, block.address ≠ 0) :
    (r.heap.freeBlocks blocks).freeBytes = r.heap.freeBytes + (blocks.map (·.size.toNat)).sum := by
  induction blocks generalizing r with
  | nil => rfl
  | cons block blocks ih =>
    have hmem : block ∈ r.live := by
      rw [hlive]
      exact List.mem_cons_self
    have hfirst := h.freeBytes_freeHeap hmem (hne block List.mem_cons_self)
    have hrest := ih (h.freeHeap hmem) (by
      show r.live.erase block = _
      rw [hlive, List.cons_append, List.erase_cons_head]) fun b hb => hne b (List.mem_cons_of_mem _ hb)
    show ((r.heap.freeHeap block).freeBlocks blocks).freeBytes = _
    rw [hrest, hfirst, List.map_cons, List.sum_cons]
    omega

theorem freeBytes_takeStack (h : r.Inv m.toConfiguredMemory) (size : Word) :
    (r.takeStack size).2.heap.freeBytes + (if r.heap.FitsStack size then (alignUp size 64).toNat else 0) =
      r.heap.freeBytes := by
  have hstack := h.stack
  show (r.heap.allocateStack size).2.freeBytes + _ = _
  rcases Decidable.em (alignUp size 64 > r.heap.stackCursor ∨
    r.heap.stackCursor - alignUp size 64 < r.heap.heapCursor) with hfail | hroom
  · have heq : r.heap.allocateStack size = (0, r.heap) := if_pos hfail
    rw [heq, if_neg fun hfits => hfits.2 hfail]
    rfl
  · have heq : r.heap.allocateStack size = (r.heap.memoryBase + (r.heap.stackCursor - alignUp size 64),
        { r.heap with stackCursor := r.heap.stackCursor - alignUp size 64 }) := if_neg hroom
    have hfits : (if r.heap.FitsStack size then (alignUp size 64).toNat else 0) = (alignUp size 64).toNat := by
      by_cases hcut : r.heap.FitsStack size
      · exact if_pos hcut
      · have hzero : alignUp size 64 = 0 := by
          by_contra hne
          exact hcut ⟨hne, hroom⟩
        rw [if_neg hcut, hzero]
        rfl
    rw [not_or, gt_iff_lt, BitVec.lt_def, BitVec.lt_def, BitVec.toNat_sub] at hroom
    have hcursor : (r.heap.stackCursor - alignUp size 64).toNat =
        r.heap.stackCursor.toNat - (alignUp size 64).toNat := by
      rw [BitVec.toNat_sub]
      omega
    rw [heq, hfits]
    simp only [Heap.freeBytes, hcursor]
    omega

end HeapRun.Inv

/-! ### The blocks of a fixed pool -/

/-- The bytes that the loop of `sceKernelCreateFpl` skips. -/
def Heap.paddings (h : Heap) (blockSize : Word) : Nat → Nat
  | 0 => 0
  | count + 1 =>
    h.padding blockSize 64 +
      if (h.allocateHeap blockSize 64).1 = 0 then 0 else (h.allocateHeap blockSize 64).2.paddings blockSize count

namespace HeapRun.Inv
variable {m : PlacedMemory} {r : HeapRun} {blockSize : Word}

/-- The heap behind one block, if there is one. -/
theorem next (h : r.Inv m.toConfiguredMemory) (blockSize : Word) :
    ∃ live, HeapRun.Inv m.toConfiguredMemory { r with heap := (r.heap.allocateHeap blockSize 64).2, live } := by
  rcases h.allocateHeap isAlignment_sixtyFour blockSize with hfail | hinv
  · rw [hfail]
    exact ⟨r.live, h⟩
  · exact ⟨_, hinv⟩

theorem freeBytes_takeBlocks (h : r.Inv m.toConfiguredMemory) (blockSize : Word) (count : Nat) :
    (r.heap.takeBlocks blockSize count).1.freeBytes +
      ((r.heap.takeBlocks blockSize count).2.1.map (·.size.toNat)).sum + r.heap.paddings blockSize count =
        r.heap.freeBytes := by
  induction count generalizing r with
  | zero => rfl
  | succ count ih =>
    obtain ⟨live, hnext⟩ := h.next blockSize
    obtain ⟨-, hbytes⟩ := h.freeBytes_allocateHeap isAlignment_sixtyFour blockSize
    have hrest := ih hnext
    unfold Heap.takeBlocks Heap.paddings
    dsimp only
    split_ifs with hzero
    · rw [if_pos hzero] at hbytes
      exact hbytes
    · rw [if_neg hzero] at hbytes
      rw [List.map_cons, List.sum_cons, ← hbytes, ← hrest]
      simp only [Nat.add_assoc, Nat.add_comm, Nat.add_left_comm]

/-- Taking the blocks and freeing them loses the skipped bytes. -/
theorem freeBytes_takeBlocks_freeBlocks (h : r.Inv m.toConfiguredMemory) (blockSize : Word) (count : Nat) :
    ((r.heap.takeBlocks blockSize count).1.freeBlocks (r.heap.takeBlocks blockSize count).2.1).freeBytes +
      r.heap.paddings blockSize count = r.heap.freeBytes := by
  have htaken := h.takeBlocks blockSize count
  have hfreed := htaken.freeBytes_freeBlocks rfl fun block hblock =>
    ((r.heap.takeBlocks_spec blockSize count).1 block hblock).1
  have hbytes := h.freeBytes_takeBlocks blockSize count
  dsimp only at hfreed
  omega

end HeapRun.Inv

theorem toNat_alignUp_sixtyFour {value : Word} (h : value.toNat + 64 ≤ 2 ^ 32) :
    (alignUp value 64).toNat = roundUp value.toNat := by
  have hx := toNat_alignUp (k := 6) (show (64 : Word).toNat = 2 ^ 6 by decide) value
  have hsum : (value + 64 - 1).toNat = value.toNat + 63 := by
    rw [BitVec.toNat_sub, BitVec.toNat_add]
    simp
    omega
  rw [hsum] at hx
  unfold roundUp
  omega

namespace MemoryBlock
variable {block : MemoryBlock} {blockSize : Word}

theorem capacity_mk (address size : Word) :
    capacity ⟨address, size⟩ blockSize =
      if (alignUp address 64).toNat + blockSize.toNat ≤ address.toNat + size.toNat then
        (address.toNat + size.toNat - ((alignUp address 64).toNat + blockSize.toNat)) /
          roundUp blockSize.toNat + 1
      else 0 := rfl

theorem fits_iff_capacity (hlast : block.address.toNat + block.size.toNat + 64 ≤ 2 ^ 32) :
    block.fits blockSize 64 = true ↔ 0 < block.capacity blockSize := by
  have hbounded : block.Bounded := by
    show _ < _
    omega
  have hle : block.address.toNat ≤ (alignUp block.address 64).toNat :=
    (alignUp_bounds isAlignment_sixtyFour (by omega)).1
  rw [fits_iff hbounded]
  unfold capacity
  dsimp only
  split_ifs with hbehind
  · exact ⟨fun _ => Nat.succ_pos _, fun _ => ⟨hle, hbehind⟩⟩
  · exact ⟨fun hfits => absurd hfits.2 hbehind, fun hlt => absurd hlt (lt_irrefl 0)⟩

/-- The bytes in front of the first multiple of 64 fit nothing, and those behind the block one less. -/
theorem capacity_leftOver (hlast : block.address.toNat + block.size.toNat + 64 ≤ 2 ^ 32)
    (hsize : blockSize ≠ 0) (hfits : block.fits blockSize 64 = true) :
    ((block.leftOver (alignUp block.address 64) blockSize).map (·.capacity blockSize)).sum + 1 =
      block.capacity blockSize := by
  have hbounded : block.Bounded := by
    show _ < _
    omega
  obtain ⟨hle, hend⟩ := (fits_iff hbounded).1 hfits
  have hpos : 0 < blockSize.toNat := Nat.pos_of_ne_zero fun hzero => hsize (BitVec.eq_of_toNat_eq hzero)
  have hdvd : 64 ∣ (alignUp block.address 64).toNat := alignUp_dvd isAlignment_sixtyFour block.address
  have hround : 0 < roundUp blockSize.toNat := by
    unfold roundUp
    omega
  have hcapacity : block.capacity blockSize =
      (block.address.toNat + block.size.toNat - ((alignUp block.address 64).toNat + blockSize.toNat)) /
        roundUp blockSize.toNat + 1 := if_pos hend
  have hfront : capacity ⟨block.address, alignUp block.address 64 - block.address⟩ blockSize = 0 := by
    rw [capacity_mk, BitVec.toNat_sub]
    refine if_neg ?_
    omega
  have hcut : (alignUp block.address 64 + blockSize).toNat =
      (alignUp block.address 64).toNat + blockSize.toNat := by
    rw [BitVec.toNat_add]
    omega
  have hsum : (block.address + block.size).toNat = block.address.toNat + block.size.toNat := by
    rw [BitVec.toNat_add]
    omega
  have hnext : (alignUp (alignUp block.address 64 + blockSize) 64).toNat =
      (alignUp block.address 64).toNat + roundUp blockSize.toNat := by
    rw [toNat_alignUp_sixtyFour (by omega), hcut]
    unfold roundUp
    omega
  generalize alignUp block.address 64 = address at *
  set behind := block.address.toNat + block.size.toNat - (address.toNat + blockSize.toNat) with hbehind
  have hback : capacity ⟨address + blockSize, block.address + block.size - (address + blockSize)⟩ blockSize + 1 =
      block.capacity blockSize := by
    rw [hcapacity, capacity_mk, BitVec.toNat_sub, hcut, hsum, hnext]
    split_ifs with hmore
    · have hstep := Nat.div_eq_sub_div hround (show roundUp blockSize.toNat ≤ behind by omega)
      rw [hstep]
      congr 3
      omega
    · rw [Nat.div_eq_of_lt (show behind < roundUp blockSize.toNat by omega)]
  unfold leftOver
  split_ifs with h1 h2 h2
  · simp only [List.map_append, List.map_cons, List.map_nil, List.sum_append, List.sum_cons, List.sum_nil, hfront]
    omega
  · simp only [List.map_append, List.map_cons, List.map_nil, List.sum_append, List.sum_cons, List.sum_nil, hfront]
    rw [BitVec.lt_def, hcut, hsum] at h2
    rw [hcapacity, show behind = 0 by omega, Nat.zero_div]
    rfl
  · simp only [List.map_append, List.map_cons, List.map_nil, List.sum_append, List.sum_cons, List.sum_nil]
    omega
  · rw [BitVec.lt_def, hcut, hsum] at h2
    rw [hcapacity, show behind = 0 by omega, Nat.zero_div]
    rfl

end MemoryBlock

namespace HeapRun.Inv
variable {m : PlacedMemory} {r : HeapRun} {blockSize : Word}

theorem last_le (h : r.Inv m.toConfiguredMemory) {block : MemoryBlock} (hmem : block ∈ r.heap.freeHeapBlocks) :
    block.address.toNat + block.size.toNat + 64 ≤ 2 ^ 32 := by
  have hlast := (h.free hmem).2.1
  have hfits := m.fits
  omega

theorem fitsBlock_iff (h : r.Inv m.toConfiguredMemory) :
    r.heap.FitsBlock blockSize 64 ↔ 0 < r.heap.capacity blockSize := by
  rw [Heap.capacity, List.sum_pos_iff_exists_pos_nat]
  constructor
  · rintro ⟨block, hmem, hfits⟩
    exact ⟨_, List.mem_map_of_mem hmem, (MemoryBlock.fits_iff_capacity (h.last_le hmem)).1 hfits⟩
  · rintro ⟨_, hmem, hpos⟩
    obtain ⟨block, hblock, rfl⟩ := List.mem_map.1 hmem
    exact ⟨block, hblock, (MemoryBlock.fits_iff_capacity (h.last_le hblock)).2 hpos⟩

/-- A block out of the free ones leaves the cursors alone and room for one less. -/
theorem next_block (h : r.Inv m.toConfiguredMemory) (hsize : blockSize ≠ 0) (hfits : r.heap.FitsBlock blockSize 64) :
    ∃ blocks, (r.heap.allocateHeap blockSize 64).2 = { r.heap with freeHeapBlocks := blocks } ∧
      Heap.capacity { r.heap with freeHeapBlocks := blocks } blockSize + 1 = r.heap.capacity blockSize := by
  cases hfind : r.heap.freeHeapBlocks.find? (MemoryBlock.fits blockSize 64) with
  | none =>
    obtain ⟨block, hmem, hblock⟩ := hfits
    exact absurd hblock (List.find?_eq_none.1 hfind block hmem)
  | some block =>
    refine ⟨r.heap.freeHeapBlocks.eraseP (MemoryBlock.fits blockSize 64) ++
      block.leftOver (alignUp block.address 64) blockSize, by rw [Heap.allocateHeap, hfind], ?_⟩
    have hleft := MemoryBlock.capacity_leftOver (h.last_le (List.mem_of_find?_eq_some hfind)) hsize
      (List.find?_some hfind)
    have hperm := ((perm_of_find? hfind).map (·.capacity blockSize)).sum_eq
    simp only [Heap.capacity, hperm, List.map_append, List.map_cons, List.sum_append, List.sum_cons]
    omega

/-- A block from the cursor leaves the free ones alone. -/
theorem next_cursor (hblock : ¬ r.heap.FitsBlock blockSize 64) (hcursor : r.heap.FitsCursor blockSize 64) :
    (r.heap.allocateHeap blockSize 64).2 =
      { r.heap with heapCursor := alignUp r.heap.heapCursor 64 + blockSize } := by
  have hfind : r.heap.freeHeapBlocks.find? (MemoryBlock.fits blockSize 64) = none :=
    List.find?_eq_none.2 fun block hmem hfits => hblock ⟨block, hmem, hfits⟩
  rw [Heap.allocateHeap, hfind]
  exact congrArg Prod.snd (if_neg hcursor)

theorem alignUp_eq_self_iff {value : Word} (h : value.toNat + 64 ≤ 2 ^ 32) :
    alignUp value 64 = value ↔ 64 ∣ value.toNat := by
  have hround := toNat_alignUp_sixtyFour h
  unfold roundUp at hround
  constructor
  · intro heq
    rw [heq] at hround
    omega
  · intro hdvd
    refine BitVec.eq_of_toNat_eq ?_
    omega

/-- Behind a block at an aligned cursor the cursor is aligned again exactly if the size is a multiple of 64. -/
theorem alignUp_cursor_add (h : r.Inv m.toConfiguredMemory) (hcursor : r.heap.FitsCursor blockSize 64)
    (haligned : alignUp r.heap.heapCursor 64 = r.heap.heapCursor)
    (hnext : (r.heap.heapCursor + blockSize).toNat + 64 ≤ 2 ^ 32) :
    alignUp (r.heap.heapCursor + blockSize) 64 = r.heap.heapCursor + blockSize ↔ 64 ∣ blockSize.toNat := by
  have hdvd := (alignUp_eq_self_iff h.cursor).1 haligned
  have hend : (r.heap.heapCursor + blockSize).toNat = r.heap.heapCursor.toNat + blockSize.toNat := by
    have hroom := (h.fitsCursor_iff blockSize 64).1 hcursor
    have hstack := h.stack
    have hfits := m.fits
    rw [haligned] at hroom
    rw [BitVec.toNat_add]
    omega
  rw [alignUp_eq_self_iff hnext, hend]
  exact (Nat.dvd_add_iff_right hdvd).symm

/-- No byte is skipped when the free blocks are enough or the cursor gives none, or when the cursor is
aligned and stays so before each further block. -/
theorem paddings_eq_zero (h : r.Inv m.toConfiguredMemory) (hsize : blockSize ≠ 0) (count : Nat) :
    r.heap.paddings blockSize count = 0 ↔
      count ≤ r.heap.capacity blockSize ∨ ¬ r.heap.FitsCursor blockSize 64 ∨
        alignUp r.heap.heapCursor 64 = r.heap.heapCursor ∧
          (64 ∣ blockSize.toNat ∨ count = r.heap.capacity blockSize + 1 ∨
            ¬ Heap.FitsCursor { r.heap with heapCursor := r.heap.heapCursor + blockSize } blockSize 64) := by
  induction count generalizing r with
  | zero => exact ⟨fun _ => .inl (Nat.zero_le _), fun _ => rfl⟩
  | succ count ih =>
    obtain ⟨live, hnext⟩ := h.next blockSize
    obtain ⟨hgiven, -⟩ := h.freeBytes_allocateHeap isAlignment_sixtyFour blockSize
    have hih := ih hnext
    unfold Heap.paddings
    by_cases hblock : r.heap.FitsBlock blockSize 64
    · obtain ⟨blocks, hheap, hcapacity⟩ := h.next_block hsize hblock
      have hpadding : r.heap.padding blockSize 64 = 0 := if_pos (.inl hblock)
      dsimp only at hih
      rw [hpadding, if_neg fun hzero => (hgiven.1 hzero).1 hblock, Nat.zero_add, hih, hheap, ← hcapacity,
        Nat.add_le_add_iff_right, Nat.add_right_cancel_iff]
      rfl
    have hnone : r.heap.capacity blockSize = 0 := Nat.eq_zero_of_not_pos fun hpos => hblock (h.fitsBlock_iff.2 hpos)
    by_cases hcursor : r.heap.FitsCursor blockSize 64
    · have hheap := next_cursor hblock hcursor
      have hpads := h.padding_eq_zero isAlignment_sixtyFour blockSize
      unfold Heap.Pads at hpads
      have hnextCursor := hnext.cursor
      dsimp only at hih hnextCursor
      rw [hheap] at hih hnextCursor
      have hsame : Heap.capacity { r.heap with heapCursor := alignUp r.heap.heapCursor 64 + blockSize } blockSize =
          r.heap.capacity blockSize := rfl
      rw [hsame, hnone] at hih
      rw [if_neg fun hzero => (hgiven.1 hzero).2 hcursor, hheap, Nat.add_eq_zero_iff, hpads, hih, hnone]
      -- from here on the cursor is where this block ends
      by_cases haligned : alignUp r.heap.heapCursor 64 = r.heap.heapCursor
      · rw [haligned] at hnextCursor ⊢
        have hagain := h.alignUp_cursor_add hcursor haligned hnextCursor
        simp only [hagain]
        constructor
        · rintro ⟨-, hcount | hfull | ⟨hmultiple, -⟩⟩
          · exact .inr (.inr ⟨trivial, .inr (.inl (by omega))⟩)
          · exact .inr (.inr ⟨trivial, .inr (.inr hfull)⟩)
          · exact .inr (.inr ⟨trivial, .inl hmultiple⟩)
        · rintro (hcount | hfull | ⟨-, hmultiple | hcount | hfull⟩)
          · omega
          · exact absurd hcursor hfull
          · exact ⟨fun hpad => hpad.2.2 rfl, .inr (.inr ⟨hmultiple, .inl hmultiple⟩)⟩
          · exact ⟨fun hpad => hpad.2.2 rfl, .inl (by omega)⟩
          · exact ⟨fun hpad => hpad.2.2 rfl, .inr (.inl hfull)⟩
      · constructor
        · rintro ⟨hpad, -⟩
          exact absurd ⟨hblock, hcursor, haligned⟩ hpad
        · rintro (hcount | hfull | ⟨heq, -⟩)
          · omega
          · exact absurd hcursor hfull
          · exact absurd heq haligned
    · have hpadding : r.heap.padding blockSize 64 = 0 := if_pos (.inr hcursor)
      rw [hpadding, if_pos (hgiven.2 ⟨hblock, hcursor⟩)]
      exact ⟨fun _ => .inr (.inl hcursor), fun _ => rfl⟩

end HeapRun.Inv

/-! ### Each kind of object -/

namespace HeapRun.Inv
variable {m : PlacedMemory} {r : HeapRun}

/-- The ledger decides: the totals agree exactly when nothing is lost. -/
theorem total_eq_iff (h : r.Inv m.toConfiguredMemory) {heap : Heap} {lost : Nat}
    (hledger : heap.freeBytes + lost = r.heap.freeBytes) :
    heap.totalFreeSize = r.heap.totalFreeSize ↔ lost = 0 := by
  have hlt := h.freeBytes_lt
  rw [Heap.totalFreeSize_eq_iff (by omega) hlt]
  omega

/-- A block that is given and freed. -/
theorem freeBytes_returned (h : r.Inv m.toConfiguredMemory) {size alignment : Word} (ha : IsAlignment alignment)
    (hne : (r.heap.allocateHeap size alignment).1 ≠ 0) :
    ((r.heap.allocateHeap size alignment).2.freeHeap ⟨(r.heap.allocateHeap size alignment).1, size⟩).freeBytes +
      r.heap.padding size alignment = r.heap.freeBytes := by
  obtain ⟨-, hbytes⟩ := h.freeBytes_allocateHeap ha size
  rw [if_neg hne] at hbytes
  rcases h.allocateHeap ha size with hfail | hinv
  · exact absurd (congrArg Prod.fst hfail) hne
  · have hfreed := hinv.freeBytes_freeHeap List.mem_cons_self hne
    dsimp only at hfreed
    omega

theorem takeStack_of_not_fits {size : Word} (hfits : ¬ r.heap.FitsStack size) : (r.takeStack size).2.heap = r.heap := by
  show (r.heap.allocateStack size).2 = r.heap
  unfold Heap.allocateStack
  dsimp only
  split_ifs with hroom
  · rfl
  · have hzero : alignUp size 64 = 0 := by
      by_contra hne
      exact hfits ⟨hne, hroom⟩
    have hsub : r.heap.stackCursor - 0 = r.heap.stackCursor := sub_zero _
    rw [hzero, hsub]

end HeapRun.Inv

namespace KernelRun
variable {m : PlacedMemory} {r : KernelRun}

theorem balanced_partition (h : r.memory.Inv m.toConfiguredMemory) (size : Word) :
    r.Balanced (.partition size) ↔ ¬ r.memory.heap.Pads size 64 := by
  rw [← h.padding_eq_zero isAlignment_sixtyFour size]
  unfold Balanced create delete sceKernelAllocPartitionMemory
  by_cases hfail : (r.memory.heap.allocateHeap size 64).1 = 0
  · obtain ⟨-, hbytes⟩ := h.freeBytes_allocateHeap isAlignment_sixtyFour size
    rw [if_pos hfail, Nat.add_zero] at hbytes
    simp only [if_pos hfail]
    exact h.total_eq_iff hbytes
  · simp only [if_neg hfail]
    rw [if_neg (by omega)]
    unfold sceKernelFreePartitionMemory
    dsimp only
    rw [List.lookup_cons_self]
    exact h.total_eq_iff (h.freeBytes_returned isAlignment_sixtyFour hfail)

theorem balanced_variablePool (h : r.memory.Inv m.toConfiguredMemory) (size : Word) :
    r.Balanced (.variablePool size) ↔ size = 0 ∨ ¬ r.memory.heap.Pads size 8 := by
  have ha : IsAlignment 8 := ⟨3, by omega, rfl⟩
  rw [← h.padding_eq_zero ha size]
  unfold Balanced create delete VplRun.sceKernelCreateVpl
  by_cases hzero : size = 0
  · simp only [if_pos hzero]
    simp [hzero]
  by_cases hfail : (r.memory.heap.allocateHeap size 8).1 = 0
  · obtain ⟨-, hbytes⟩ := h.freeBytes_allocateHeap ha size
    rw [if_pos hfail, Nat.add_zero] at hbytes
    simp only [if_neg hzero, if_pos hfail]
    rw [or_iff_right hzero]
    exact h.total_eq_iff hbytes
  · simp only [if_neg hzero, if_neg hfail]
    rw [if_neg (by omega), or_iff_right hzero]
    unfold VplRun.sceKernelDeleteVpl
    dsimp only
    rw [List.lookup_cons_self]
    exact h.total_eq_iff (h.freeBytes_returned ha hfail)

theorem balanced_fixedPool (h : r.memory.Inv m.toConfiguredMemory) (blockSize blockCount : Word) :
    r.Balanced (.fixedPool blockSize blockCount) ↔
      blockSize = 0 ∨ r.memory.heap.paddings blockSize blockCount.toNat = 0 := by
  have hledger := h.freeBytes_takeBlocks_freeBlocks blockSize blockCount.toNat
  unfold Balanced create delete FplRun.sceKernelCreateFpl
  by_cases hzero : blockSize = 0 ∨ blockCount = 0
  · simp only [if_pos hzero]
    rw [if_pos trivial]
    refine ⟨fun _ => hzero.imp_right fun hcount => ?_, fun _ => trivial⟩
    rw [hcount]
    rfl
  rw [or_iff_right (not_or.1 hzero).1]
  cases hcomplete : (r.memory.heap.takeBlocks blockSize blockCount.toNat).2.2 with
  | false =>
    simp only [if_neg hzero, hcomplete, Bool.false_eq_true, if_false]
    exact h.total_eq_iff hledger
  | true =>
    simp only [if_neg hzero, hcomplete, if_true]
    rw [if_neg (by omega)]
    unfold FplRun.sceKernelDeleteFpl
    dsimp only
    rw [List.lookup_cons_self]
    exact h.total_eq_iff hledger

theorem create_thread_memory (r : ThreadRun) (stackSize : Word) :
    (r.sceKernelCreateThread stackSize).1.memory = r.taken stackSize := by
  rcases r.create_cases stackSize with ⟨-, heq⟩ | ⟨-, heq⟩ <;> rw [heq]

theorem delete_thread_memory (r : ThreadRun) (uid : Int) : (r.sceKernelDeleteThread uid).1.memory = r.memory := by
  unfold ThreadRun.sceKernelDeleteThread
  split
  · rfl
  · split_ifs <;> rfl

/-- Failed or deleted, a thread keeps what its creation took. -/
theorem balanced_thread_iff (r : KernelRun) (stackSize : Word) :
    r.Balanced (.thread stackSize) ↔
      (r.threadRun.taken stackSize).heap.totalFreeSize = r.memory.heap.totalFreeSize := by
  have hcreate : (r.create (.thread stackSize)).memory = r.threadRun.taken stackSize :=
    create_thread_memory r.threadRun stackSize
  have hdelete : ((r.create (.thread stackSize)).delete r.nextUid (.thread stackSize)).memory =
      (r.create (.thread stackSize)).memory := delete_thread_memory _ _
  unfold Balanced
  rw [hdelete, hcreate, ite_self]

theorem balanced_thread (h : r.memory.Inv m.toConfiguredMemory) (stackSize : Word) :
    r.Balanced (.thread stackSize) ↔ r.memory.heap.GivesBack (.thread stackSize) := by
  have hstack := h.freeBytes_takeStack (ThreadRun.requestedStack stackSize)
  have hcut := h.takeStack (ThreadRun.requestedStack stackSize)
  obtain ⟨hgiven, htls⟩ := hcut.freeBytes_allocateHeap (m := m) isAlignment_sixtyFour 0x100
  have hledger : (r.threadRun.taken stackSize).heap.freeBytes +
      ((if (r.memory.takeStack (ThreadRun.requestedStack stackSize)).2.takeTls.1 = 0 then 0 else 0x100) +
        (r.memory.takeStack (ThreadRun.requestedStack stackSize)).2.heap.padding 0x100 64 +
        (if r.memory.heap.FitsStack (ThreadRun.requestedStack stackSize) then
          (alignUp (ThreadRun.requestedStack stackSize) 64).toNat else 0)) = r.memory.heap.freeBytes := by
    rw [← hstack, ← htls]
    simp only [Nat.add_assoc]
    rfl
  rw [balanced_thread_iff, h.total_eq_iff hledger, Nat.add_eq_zero_iff, Nat.add_eq_zero_iff]
  unfold Heap.GivesBack
  by_cases hfits : r.memory.heap.FitsStack (ThreadRun.requestedStack stackSize)
  · have hpos : 0 < (alignUp (ThreadRun.requestedStack stackSize) 64).toNat :=
      Nat.pos_of_ne_zero fun hzero => hfits.1 (BitVec.eq_of_toNat_eq hzero)
    rw [if_pos hfits]
    exact ⟨fun hlost => absurd hlost.2 hpos.ne', fun hback => absurd hfits hback.1⟩
  · have hheap := HeapRun.Inv.takeStack_of_not_fits hfits
    rw [hheap] at hgiven ⊢
    have htls : (r.memory.takeStack (ThreadRun.requestedStack stackSize)).2.takeTls.1 =
        (r.memory.heap.allocateHeap 0x100 64).1 := by
      rw [← hheap]
      rfl
    rw [if_neg hfits, htls]
    constructor
    · rintro ⟨⟨hzero, -⟩, -⟩
      split_ifs at hzero with hfail
      exact ⟨hfits, hgiven.1 hfail⟩
    · rintro ⟨-, hblock, hcursor⟩
      rw [if_pos (hgiven.2 ⟨hblock, hcursor⟩)]
      exact ⟨⟨rfl, if_pos (.inr hcursor)⟩, rfl⟩

end KernelRun

/-- In every reachable state of the allocator, creating an object and deleting it, or failing to create it,
keeps the total free size exactly when no byte stays behind. -/
theorem objects_balanced (m : PlacedMemory) (heapCalls : List HeapCall) (r : KernelRun)
    (hrun : run HeapRun.step { heap := m.heap } heapCalls = some r.memory) (creation : Creation) :
    r.Balanced creation ↔ r.memory.heap.GivesBack creation := by
  have h : r.memory.Inv m.toConfiguredMemory := run_invariant (fun _ _ _ h hstep => h.step hstep) m.heap_inv hrun
  cases creation with
  | thread stackSize => exact KernelRun.balanced_thread h stackSize
  | fixedPool blockSize blockCount =>
    rw [KernelRun.balanced_fixedPool h]
    by_cases hsize : blockSize = 0
    · exact ⟨fun _ => .inl hsize, fun _ => .inl hsize⟩
    · rw [h.paddings_eq_zero hsize]
      rfl
  | variablePool size => exact KernelRun.balanced_variablePool h size
  | partition size => exact KernelRun.balanced_partition h size

/-- A partition block out of the free block before the image, and an aligned cursor for a larger one and for
a fixed pool of blocks of 0x10000 bytes. -/
theorem objects_balanced_placed :
    let r : KernelRun := { memory := { heap := placedUserMemory.heap }, guestExecutor := true }
    r.Balanced (.partition 0x1234) ∧ r.Balanced (.partition 0x5001) ∧ r.Balanced (.variablePool 0x5008) ∧
      r.Balanced (.fixedPool 0x10000 9) ∧ r.Balanced (.fixedPool 0x1003 4) := by
  intro r
  have hback : ∀ creation ∈ [Creation.partition 0x1234, .partition 0x5001, .variablePool 0x5008,
      .fixedPool 0x10000 9, .fixedPool 0x1003 4], r.memory.heap.GivesBack creation := by
    decide
  have hall : ∀ creation, r.memory.heap.GivesBack creation → r.Balanced creation :=
    fun creation => (objects_balanced placedUserMemory [] r rfl creation).2
  exact ⟨hall _ (hback _ (by decide)), hall _ (hback _ (by decide)), hall _ (hback _ (by decide)),
    hall _ (hback _ (by decide)), hall _ (hback _ (by decide))⟩

/-- A thread that is made and deleted, one that is not made for want of an executor, and a second block of
0x5001 bytes behind the first. -/
theorem objects_unbalanced :
    let r : KernelRun := { memory := { heap := placedUserMemory.heap }, guestExecutor := true }
    ¬ r.Balanced (.thread 0x4000) ∧ ¬ KernelRun.Balanced { r with guestExecutor := false } (.thread 0x4000) ∧
      ¬ (r.create (.partition 0x5001)).Balanced (.partition 0x5001) ∧ ¬ r.Balanced (.fixedPool 0x5001 2) := by
  decide

end Psprism
