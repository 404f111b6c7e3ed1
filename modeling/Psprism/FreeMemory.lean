import Mathlib.Algebra.Order.BigOperators.Group.List
import Psprism.ObjectMemory

/-!
# The largest free block (`kernel/memory_state.hpp`, `sceKernelMaxFreeMemSize`)

A guest asks for the largest free size before it allocates. Nothing larger can be had, and all that is smaller
by what an alignment may skip can be: the size is that of a free block or of the gap between the cursors, and
only the bytes before the first aligned address of it are lost.
-/

namespace Psprism
open Interleaving

/-- `std::max`. -/
def maxWord (a b : Word) : Word := if a < b then b else a

theorem toNat_maxWord (a b : Word) : (maxWord a b).toNat = max a.toNat b.toNat := by
  unfold maxWord
  split
  next hlt =>
    rw [BitVec.lt_def] at hlt
    exact (max_eq_right hlt.le).symm
  next hle =>
    rw [BitVec.lt_def, not_lt] at hle
    exact (max_eq_left hle).symm

namespace Heap

/-- `maximum_free_size`. -/
def maximumFreeSize (h : Heap) : Word :=
  h.freeHeapBlocks.foldl (fun largest block => maxWord largest block.size)
    (if h.stackCursor > h.heapCursor then h.stackCursor - h.heapCursor else 0)

/-- The bytes between the cursors. -/
def gap (h : Heap) : Nat := h.stackCursor.toNat - h.heapCursor.toNat

theorem foldl_maxWord_le {blocks : List MemoryBlock} {start bound : Word} :
    (blocks.foldl (fun largest block => maxWord largest block.size) start).toNat ≤ bound.toNat ↔
      start.toNat ≤ bound.toNat ∧ ∀ block ∈ blocks, block.size.toNat ≤ bound.toNat := by
  induction blocks generalizing start with
  | nil => simp
  | cons block blocks ih =>
    rw [List.foldl_cons, ih, toNat_maxWord, List.forall_mem_cons, max_le_iff, and_assoc]

theorem toNat_gap (h : Heap) :
    (if h.stackCursor > h.heapCursor then h.stackCursor - h.heapCursor else 0 : Word).toNat = h.gap := by
  unfold gap
  split
  next hlt =>
    rw [gt_iff_lt, BitVec.lt_def] at hlt
    rw [BitVec.toNat_sub]
    omega
  next hle =>
    rw [gt_iff_lt, BitVec.lt_def] at hle
    simp
    omega

theorem maximumFreeSize_le {h : Heap} {bound : Word} :
    h.maximumFreeSize.toNat ≤ bound.toNat ↔
      h.gap ≤ bound.toNat ∧ ∀ block ∈ h.freeHeapBlocks, block.size.toNat ≤ bound.toNat := by
  rw [maximumFreeSize, foldl_maxWord_le, toNat_gap]

theorem gap_le (h : Heap) : h.gap ≤ h.maximumFreeSize.toNat := (maximumFreeSize_le.1 le_rfl).1

theorem size_le {h : Heap} {block : MemoryBlock} (hmem : block ∈ h.freeHeapBlocks) :
    block.size.toNat ≤ h.maximumFreeSize.toNat := (maximumFreeSize_le.1 le_rfl).2 block hmem

/-- The size is the gap's or that of a free block. -/
theorem maximumFreeSize_mem (h : Heap) :
    h.maximumFreeSize.toNat = h.gap ∨ ∃ block ∈ h.freeHeapBlocks, h.maximumFreeSize.toNat = block.size.toNat := by
  by_contra hnone
  rw [not_or, not_exists] at hnone
  obtain ⟨hgap, hblocks⟩ := hnone
  have hpos : 0 < h.maximumFreeSize.toNat := by have := h.gap_le; omega
  have hbound : (h.maximumFreeSize - 1).toNat = h.maximumFreeSize.toNat - 1 := by
    rw [BitVec.toNat_sub]
    simp
    omega
  have hle : h.maximumFreeSize.toNat ≤ (h.maximumFreeSize - 1).toNat := by
    refine maximumFreeSize_le.2 ⟨?_, fun block hmem => ?_⟩
    · have := h.gap_le
      omega
    · have := size_le hmem
      have : h.maximumFreeSize.toNat ≠ block.size.toNat := fun heq => hblocks block ⟨hmem, heq⟩
      omega
  omega

end Heap

namespace HeapRun.Inv
variable {m : PlacedMemory} {r : HeapRun} {size alignment : Word}

theorem given_iff (h : r.Inv m.toConfiguredMemory) (ha : IsAlignment alignment) :
    (r.heap.allocateHeap size alignment).1 ≠ 0 ↔ r.heap.FitsBlock size alignment ∨ r.heap.FitsCursor size alignment := by
  rw [ne_eq, (h.freeBytes_allocateHeap ha size).1, not_and_or, not_not, not_not]

/-- What is given is no larger than the largest free size. -/
theorem le_maximumFreeSize (h : r.Inv m.toConfiguredMemory) (ha : IsAlignment alignment)
    (hgiven : (r.heap.allocateHeap size alignment).1 ≠ 0) : size.toNat ≤ r.heap.maximumFreeSize.toNat := by
  rcases (h.given_iff ha).1 hgiven with ⟨block, hmem, hfits⟩ | hcursor
  · obtain ⟨-, -, hbounded⟩ := h.free hmem
    obtain ⟨hle, hend⟩ := (MemoryBlock.fits_iff hbounded).1 hfits
    have := Heap.size_le hmem
    omega
  · have hroom := (h.fitsCursor_iff size alignment).1 hcursor
    have hpad := h.pad_bounds ha
    have := r.heap.gap_le
    unfold Heap.gap at this
    omega

/-- What leaves room for the bytes that an alignment skips is given. -/
theorem given_of_le (h : r.Inv m.toConfiguredMemory) (ha : IsAlignment alignment)
    (hsize : size.toNat + 63 ≤ r.heap.maximumFreeSize.toNat) : (r.heap.allocateHeap size alignment).1 ≠ 0 := by
  refine (h.given_iff ha).2 ?_
  rcases r.heap.maximumFreeSize_mem with heq | ⟨block, hmem, heq⟩
  · have hbounds := alignUp_bounds ha h.cursor
    refine .inr ((h.fitsCursor_iff size alignment).2 ?_)
    unfold Heap.gap at heq
    omega
  · obtain ⟨-, -, hbounded⟩ := h.free hmem
    have hlast := h.last_le hmem
    have hbounds := alignUp_bounds ha (show block.address.toNat + 64 ≤ 2 ^ 32 by omega)
    exact .inl ⟨block, hmem, (MemoryBlock.fits_iff hbounded).2 (by omega)⟩

end HeapRun.Inv

theorem Heap.maximumFreeSize_le_freeBytes (h : Heap) : h.maximumFreeSize.toNat ≤ h.freeBytes := by
  unfold freeBytes
  rcases h.maximumFreeSize_mem with heq | ⟨block, hmem, heq⟩
  · rw [heq, gap]
    omega
  · have hle : block.size.toNat ≤ (h.freeHeapBlocks.map (·.size.toNat)).sum :=
      List.le_sum_of_mem (List.mem_map.2 ⟨block, hmem, rfl⟩)
    omega

namespace KernelRun
variable {r : KernelRun} {size : Word}

theorem partition_refused (h : (r.memory.heap.allocateHeap size 64).1 = 0) :
    (r.sceKernelAllocPartitionMemory size).2 = 0x80020190 := by
  unfold sceKernelAllocPartitionMemory
  simp only [if_pos h]

theorem partition_given (h : (r.memory.heap.allocateHeap size 64).1 ≠ 0) :
    (r.sceKernelAllocPartitionMemory size).2 = BitVec.ofInt 32 r.nextUid ∧
      (r.sceKernelAllocPartitionMemory size).1.memoryBlocks =
        (r.nextUid, ⟨(r.memory.heap.allocateHeap size 64).1, size⟩) :: r.memoryBlocks := by
  unfold sceKernelAllocPartitionMemory
  simp only [if_neg h, and_self]

/-- The objects that calls of the guest have made and not deleted, whatever else is done to the heap. -/
inductive Reached : KernelRun → Prop
  | start {r : KernelRun} (hblocks : r.memoryBlocks = []) : Reached r
  | create {r : KernelRun} (creation : Creation) (h : Reached r) : Reached (r.create creation)
  | delete {r : KernelRun} (uid : Int) (creation : Creation) (h : Reached r) : Reached (r.delete uid creation)
  | heap {r : KernelRun} (memory : HeapRun) (h : Reached r) : Reached { r with memory }

/-- A creation takes one number, or none, and a partition block is kept under the number it takes. -/
theorem create_numbers (r : KernelRun) (creation : Creation) :
    (r.create creation).memoryBlocks = r.memoryBlocks ∧ r.nextUid ≤ (r.create creation).nextUid ∨
      ∃ block, (r.create creation).memoryBlocks = (r.nextUid, block) :: r.memoryBlocks ∧
        (r.create creation).nextUid = r.nextUid + 1 := by
  cases creation with
  | thread stackSize =>
    refine .inl ⟨rfl, ?_⟩
    simp only [create, ThreadRun.sceKernelCreateThread]
    split
    · exact le_rfl
    · exact Int.le_add_one le_rfl
  | fixedPool blockSize blockCount =>
    refine .inl ⟨rfl, ?_⟩
    simp only [create, FplRun.sceKernelCreateFpl]
    split
    · exact le_rfl
    split
    · exact Int.le_add_one le_rfl
    · exact le_rfl
  | variablePool size =>
    refine .inl ⟨rfl, ?_⟩
    simp only [create, VplRun.sceKernelCreateVpl]
    split
    · exact le_rfl
    split
    · exact le_rfl
    · exact Int.le_add_one le_rfl
  | partition size =>
    simp only [create, sceKernelAllocPartitionMemory]
    split
    · exact .inl ⟨rfl, le_rfl⟩
    · exact .inr ⟨_, rfl, rfl⟩

theorem delete_numbers (r : KernelRun) (uid : Int) (creation : Creation) :
    (r.delete uid creation).memoryBlocks.Sublist r.memoryBlocks ∧ (r.delete uid creation).nextUid = r.nextUid := by
  cases creation with
  | thread | fixedPool | variablePool => exact ⟨.refl _, rfl⟩
  | partition size =>
    simp only [delete, sceKernelFreePartitionMemory]
    split
    · exact ⟨.refl _, rfl⟩
    · exact ⟨List.eraseP_sublist, rfl⟩

theorem Reached.lt_nextUid (h : r.Reached) : ∀ block ∈ r.memoryBlocks, block.1 < r.nextUid := by
  induction h with
  | start hblocks =>
    rw [hblocks]
    exact fun block hmem => absurd hmem List.not_mem_nil
  | @create r creation _ ih =>
    rcases create_numbers r creation with ⟨hblocks, hnext⟩ | ⟨block, hblocks, hnext⟩
    · rw [hblocks]
      exact fun block hmem => (ih block hmem).trans_le hnext
    · rw [hblocks, hnext]
      refine List.forall_mem_cons.2 ⟨Int.lt_succ r.nextUid, fun block hmem => ?_⟩
      exact (ih block hmem).trans (Int.lt_succ r.nextUid)
  | @delete r uid creation _ ih =>
    obtain ⟨hblocks, hnext⟩ := delete_numbers r uid creation
    rw [hnext]
    exact fun block hmem => ih block (hblocks.subset hmem)
  | heap memory _ ih => exact ih

end KernelRun

/-- Whatever the guest allocated, freed and cut off for stacks before: the largest free size is at most the total
one, no block that is larger is given, and one that is smaller by 63 bytes is given and kept under a new number,
which is that of no block kept so far. -/
theorem partition_max_free (m : PlacedMemory) (heapCalls : List HeapCall) (r : KernelRun)
    (hrun : run HeapRun.step { heap := m.heap } heapCalls = some r.memory) (size : Word) :
    r.memory.heap.maximumFreeSize.toNat ≤ r.memory.heap.totalFreeSize.toNat ∧
      ((r.sceKernelAllocPartitionMemory size).2 ≠ 0x80020190 →
        size.toNat ≤ r.memory.heap.maximumFreeSize.toNat) ∧
      (size.toNat + 63 ≤ r.memory.heap.maximumFreeSize.toNat →
        (r.sceKernelAllocPartitionMemory size).2 = BitVec.ofInt 32 r.nextUid ∧
          ∃ address ≠ 0, (r.sceKernelAllocPartitionMemory size).1.memoryBlocks =
            (r.nextUid, ⟨address, size⟩) :: r.memoryBlocks) ∧
      (r.Reached → ∀ block ∈ r.memoryBlocks, block.1 ≠ r.nextUid) := by
  have h : r.memory.Inv m.toConfiguredMemory := run_invariant (fun _ _ _ h hstep => h.step hstep) m.heap_inv hrun
  refine ⟨?_, fun hreply => ?_, fun hsize => ?_, fun hreached block hmem => (hreached.lt_nextUid block hmem).ne⟩
  · have hle := r.memory.heap.maximumFreeSize_le_freeBytes
    have hlt := h.freeBytes_lt
    rw [Heap.totalFreeSize, BitVec.toNat_ofNat]
    omega
  · exact h.le_maximumFreeSize isAlignment_sixtyFour fun hzero => hreply (KernelRun.partition_refused hzero)
  · have hgiven := h.given_of_le isAlignment_sixtyFour hsize
    obtain ⟨hreply, hblocks⟩ := KernelRun.partition_given hgiven
    exact ⟨hreply, _, hgiven, hblocks⟩

/-- Two blocks are allocated and the first is given back: a third of the largest free size less 63 bytes. -/
theorem partition_max_free_placed :
    let start : KernelRun := { memory := { heap := placedUserMemory.heap }, guestExecutor := true }
    let kept := ((start.create (.partition 0x9000)).create (.partition 0x40)).delete 0x100 (.partition 0x9000)
    ∃ memory size, run HeapRun.step start.memory [.allocateHeap 0x9000 64, .allocateHeap 0x40 64,
        .freeHeap ⟨(start.memory.heap.allocateHeap 0x9000 64).1, 0x9000⟩] = some memory ∧
      size = memory.heap.maximumFreeSize - 63 ∧ size.toNat ≠ 0 ∧
      (KernelRun.sceKernelAllocPartitionMemory { kept with memory } size).2 = 0x102 ∧
      kept.memoryBlocks.map Prod.fst = [0x101] ∧ ∀ block ∈ kept.memoryBlocks, block.1 ≠ 0x102 := by
  intro start kept
  obtain ⟨memory, hrun, hsize⟩ : ∃ memory, run HeapRun.step start.memory
      [.allocateHeap 0x9000 64, .allocateHeap 0x40 64,
        .freeHeap ⟨(start.memory.heap.allocateHeap 0x9000 64).1, 0x9000⟩] = some memory ∧
      decide (63 < memory.heap.maximumFreeSize.toNat) = true :=
    (Option.any_eq_true _ _).1 (by decide)
  have hsize := of_decide_eq_true hsize
  have hless : (memory.heap.maximumFreeSize - 63).toNat + 63 = memory.heap.maximumFreeSize.toNat := by
    rw [BitVec.toNat_sub]
    simp
    omega
  have hnext : kept.nextUid = 0x102 := by decide
  have hreached : KernelRun.Reached { kept with memory } :=
    .heap memory (.delete _ _ (.create _ (.create _ (.start rfl))))
  obtain ⟨-, -, hgiven, hnew⟩ := partition_max_free placedUserMemory _ { kept with memory } hrun
    (memory.heap.maximumFreeSize - 63)
  refine ⟨memory, _, hrun, rfl, by omega, ?_, by decide, ?_⟩
  · rw [(hgiven hless.le).1]
    exact congrArg (BitVec.ofInt 32) hnext
  · rw [← hnext]
    exact hnew hreached

end Psprism
