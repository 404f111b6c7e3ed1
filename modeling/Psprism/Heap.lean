import Mathlib.Data.List.Sort
import Psprism.Lib.Interleaving
import Psprism.Lib.Packed
import Psprism.State

/-!
# The guest heap (`refract/src/runtime.cpp`)

`allocate_heap` takes the first free block that fits, cut at an aligned address, or moves the heap cursor
up; `free_heap` puts a block back and joins its neighbours; `allocate_stack` moves the stack cursor down.
The cursors are relative to the memory base, the free blocks are absolute.

`HeapRun` adds to the heap the blocks that its callers hold, and `HeapRun.regions` lists all that is kept
apart: the image, the middle between the cursors, live and free blocks, and stacks.
-/

namespace Psprism
open Interleaving

@[ext] structure MemoryBlock where
  address : Word
  size : Word
deriving DecidableEq, Repr

def MemoryBlock.range (block : MemoryBlock) : Set Nat :=
  Set.Ico block.address.toNat (block.address.toNat + block.size.toNat)

def alignUp (value alignment : Word) : Word := (value + alignment - 1) &&& ~~~(alignment - 1)

/-- The loop that `free_heap` and `sceKernelFreeVpl` end with, from the block `previous` on. -/
def mergeAdjacent (previous : MemoryBlock) : List MemoryBlock → List MemoryBlock
  | [] => [previous]
  | current :: rest =>
    if previous.address + previous.size = current.address then
      mergeAdjacent ⟨previous.address, previous.size + current.size⟩ rest
    else previous :: mergeAdjacent current rest

/-- A block put back: `push_back`, `std::sort` by address, and the loop. -/
def putBack (blocks : List MemoryBlock) (block : MemoryBlock) : List MemoryBlock :=
  match (blocks ++ [block]).insertionSort fun left right => left.address ≤ right.address with
  | [] => []
  | first :: rest => mergeAdjacent first rest

structure Heap where
  memoryBase : Word
  heapCursor : Word
  freeHeapBlocks : List MemoryBlock
  stackCursor : Word

/-- The block has the size left behind its first aligned address. -/
def MemoryBlock.fits (size alignment : Word) (block : MemoryBlock) : Bool :=
  let address := alignUp block.address alignment
  ¬ (address < block.address ∨ address - block.address > block.size ∨
    size > block.size - (address - block.address))

/-- What `allocate_heap` puts back of a block it takes `size` bytes at `address` from. -/
def MemoryBlock.leftOver (block : MemoryBlock) (address size : Word) : List MemoryBlock :=
  (if address > block.address then [⟨block.address, address - block.address⟩] else []) ++
    (if address + size < block.address + block.size then
      [⟨address + size, block.address + block.size - (address + size)⟩] else [])

namespace Heap

def allocateHeap (h : Heap) (size alignment : Word) : Word × Heap :=
  match h.freeHeapBlocks.find? (MemoryBlock.fits size alignment) with
  | some block =>
    let address := alignUp block.address alignment
    (address, { h with freeHeapBlocks :=
      h.freeHeapBlocks.eraseP (MemoryBlock.fits size alignment) ++ block.leftOver address size })
  | none =>
    let address := alignUp h.heapCursor alignment
    if size > h.stackCursor ∨ address > h.stackCursor - size then (0, h)
    else (h.memoryBase + address, { h with heapCursor := address + size })

def freeHeap (h : Heap) (block : MemoryBlock) : Heap :=
  if block.address = 0 ∨ block.size = 0 then h
  else { h with freeHeapBlocks := putBack h.freeHeapBlocks block }

def allocateStack (h : Heap) (size : Word) : Word × Heap :=
  let size := alignUp size 64
  if size > h.stackCursor ∨ h.stackCursor - size < h.heapCursor then (0, h)
  else (h.memoryBase + (h.stackCursor - size), { h with stackCursor := h.stackCursor - size })

def middle (h : Heap) : Set Nat :=
  Set.Ico (h.memoryBase.toNat + h.heapCursor.toNat) (h.memoryBase.toNat + h.stackCursor.toNat)

end Heap

/-- Guest memory with the image range in it. The project's `main` ends guest memory at `guest_ram_end`,
0x0a000000; here it only ends where rounding up to 64 cannot wrap. -/
structure ConfiguredMemory where
  base : Word
  size : Nat
  imageStart : Word
  imageSize : Nat
  base_aligned : 64 ∣ base.toNat
  fits : base.toNat + size ≤ 2 ^ 32 - 64
  image_ordered : imageStart.toNat ≤ imageSize
  image_inside : imageSize ≤ size

namespace ConfiguredMemory

def range (m : ConfiguredMemory) : Set Nat := Set.Ico m.base.toNat (m.base.toNat + m.size)

def image (m : ConfiguredMemory) : Set Nat :=
  Set.Ico (m.base.toNat + m.imageStart.toNat) (m.base.toNat + m.imageSize)

def heap (m : ConfiguredMemory) : Heap where
  memoryBase := m.base
  heapCursor := alignUp (BitVec.ofNat 32 m.imageSize) 64
  stackCursor := BitVec.ofNat 32 (if m.size > 0x40000 then m.size - 0x40000 else m.size)
  freeHeapBlocks :=
    let userMemoryStart : Word := 0x08800000
    let imageStart := m.base + m.imageStart
    if m.base ≤ userMemoryStart ∧ imageStart > userMemoryStart ∧ imageStart.toNat ≤ m.base.toNat + m.size
    then [⟨userMemoryStart, imageStart - userMemoryStart⟩] else []

end ConfiguredMemory

inductive HeapCall
  | allocateHeap (size alignment : Word)
  | freeHeap (block : MemoryBlock)
  | allocateStack (size : Word)
deriving DecidableEq

structure HeapRun where
  heap : Heap
  live : List MemoryBlock := []
  reserved : List MemoryBlock := []

/-- A power of two up to 64. -/
def IsAlignment (alignment : Word) : Prop := ∃ k < 7, alignment = BitVec.ofNat 32 (2 ^ k)

instance (alignment : Word) : Decidable (IsAlignment alignment) :=
  inferInstanceAs (Decidable (∃ k < 7, _))

namespace HeapRun

/-- Callers free what they hold. -/
def step (r : HeapRun) : HeapCall → Option HeapRun
  | .allocateHeap size alignment =>
    if IsAlignment alignment then
      let (address, heap) := r.heap.allocateHeap size alignment
      some { r with heap, live := if address = 0 then r.live else ⟨address, size⟩ :: r.live }
    else none
  | .freeHeap block =>
    if block ∈ r.live then some { r with heap := r.heap.freeHeap block, live := r.live.erase block }
    else none
  | .allocateStack size =>
    let (_, heap) := r.heap.allocateStack size
    let stack := ⟨heap.memoryBase + heap.stackCursor, r.heap.stackCursor - heap.stackCursor⟩
    some { r with heap, reserved := stack :: r.reserved }

def regions (r : HeapRun) (m : ConfiguredMemory) : List (Set Nat) :=
  m.image :: r.heap.middle :: (r.live ++ r.heap.freeHeapBlocks ++ r.reserved).map MemoryBlock.range

end HeapRun

/-! ### Rounding up -/

theorem isAlignment_sixtyFour : IsAlignment 64 := ⟨6, by omega, rfl⟩

theorem and_not_add_and (x m : Word) : (x &&& ~~~m) + (x &&& m) = x := by
  rw [BitVec.add_eq_or_of_and_eq_zero]
  · ext i
    simp only [BitVec.getElem_or, BitVec.getElem_and, BitVec.getElem_not]
    cases x[i] <;> cases m[i] <;> rfl
  · ext i
    simp only [BitVec.getElem_and, BitVec.getElem_not, BitVec.getElem_zero]
    cases x[i] <;> cases m[i] <;> rfl

theorem toNat_alignUp {alignment : Word} {k : Nat} (h : alignment.toNat = 2 ^ k) (value : Word) :
    (alignUp value alignment).toNat + (value + alignment - 1).toNat % 2 ^ k =
      (value + alignment - 1).toNat := by
  have hmask : (alignment - 1).toNat = 2 ^ k - 1 := by
    have hpos : 0 < 2 ^ k := Nat.two_pow_pos k
    have hlt := alignment.isLt
    rw [BitVec.toNat_sub, h]
    rw [h] at hlt
    simp
    omega
  unfold alignUp
  generalize value + alignment - 1 = x
  have hsum := congrArg BitVec.toNat (and_not_add_and x (alignment - 1))
  have hlow : (x &&& (alignment - 1)).toNat = x.toNat % 2 ^ k := by
    rw [BitVec.toNat_and, hmask, Nat.and_two_pow_sub_one_eq_mod]
  have hhigh : (x &&& ~~~(alignment - 1)).toNat ≤ x.toNat := by
    rw [BitVec.toNat_and]
    exact Nat.and_le_left
  have hlt := x.isLt
  rw [BitVec.toNat_add, hlow] at hsum
  have hmod := Nat.mod_le x.toNat (2 ^ k)
  omega

theorem alignUp_dvd {alignment : Word} (h : IsAlignment alignment) (value : Word) :
    alignment.toNat ∣ (alignUp value alignment).toNat := by
  obtain ⟨k, hk, rfl⟩ := h
  have hpow : (BitVec.ofNat 32 (2 ^ k)).toNat = 2 ^ k := by
    rw [BitVec.toNat_ofNat, Nat.mod_eq_of_lt (Nat.pow_lt_pow_right (by omega) (by omega))]
  have hx := toNat_alignUp hpow value
  rw [hpow]
  have hdvd := Nat.dvd_sub_mod (n := 2 ^ k) (value + BitVec.ofNat 32 (2 ^ k) - 1).toNat
  have heq : (alignUp value (BitVec.ofNat 32 (2 ^ k))).toNat =
      (value + BitVec.ofNat 32 (2 ^ k) - 1).toNat - (value + BitVec.ofNat 32 (2 ^ k) - 1).toNat % 2 ^ k := by
    omega
  rw [heq]
  exact hdvd

/-- Away from the top of the address space rounding up does not wrap. -/
theorem alignUp_bounds {alignment : Word} (h : IsAlignment alignment) {value : Word}
    (hvalue : value.toNat + 64 ≤ 2 ^ 32) :
    value.toNat ≤ (alignUp value alignment).toNat ∧ (alignUp value alignment).toNat < value.toNat + 64 := by
  obtain ⟨k, hk, rfl⟩ := h
  have hle : 2 ^ k ≤ 2 ^ 6 := Nat.pow_le_pow_right (by omega) (by omega)
  have hpos : 0 < 2 ^ k := Nat.two_pow_pos k
  have hpow : (BitVec.ofNat 32 (2 ^ k)).toNat = 2 ^ k := by
    rw [BitVec.toNat_ofNat, Nat.mod_eq_of_lt (by omega)]
  have hx := toNat_alignUp hpow value
  have hsum : (value + BitVec.ofNat 32 (2 ^ k) - 1).toNat = value.toNat + 2 ^ k - 1 := by
    rw [BitVec.toNat_sub, BitVec.toNat_add, hpow]
    simp
    omega
  have hmod := Nat.mod_lt (value + BitVec.ofNat 32 (2 ^ k) - 1).toNat hpos
  omega

/-! ### Blocks -/

namespace MemoryBlock
variable {block : MemoryBlock} {size alignment : Word}

theorem range_mk (address size : Word) :
    range ⟨address, size⟩ = Set.Ico address.toNat (address.toNat + size.toNat) := rfl

def Bounded (block : MemoryBlock) : Prop := block.address.toNat + block.size.toNat < 2 ^ 32

theorem fits_iff (h : block.Bounded) :
    block.fits size alignment = true ↔
      block.address.toNat ≤ (alignUp block.address alignment).toNat ∧
        (alignUp block.address alignment).toNat + size.toNat ≤ block.address.toNat + block.size.toNat := by
  have hbounded : block.address.toNat + block.size.toNat < 2 ^ 32 := h
  unfold fits
  generalize alignUp block.address alignment = address
  simp only [decide_eq_true_eq, not_or, BitVec.lt_def, gt_iff_lt, not_lt]
  have haddress := address.isLt
  constructor
  · rintro ⟨_, h2, h3⟩
    rw [BitVec.toNat_sub] at h2
    rw [BitVec.toNat_sub, BitVec.toNat_sub] at h3
    omega
  · rintro ⟨h1, h2⟩
    have hsub : (address - block.address).toNat = address.toNat - block.address.toNat := by
      rw [BitVec.toNat_sub]
      omega
    have hrest : (block.size - (address - block.address)).toNat =
        block.size.toNat - (address.toNat - block.address.toNat) := by
      rw [BitVec.toNat_sub, hsub]
      omega
    rw [hsub, hrest]
    omega

/-- Taking an aligned front leaves disjoint pieces of the block. -/
theorem packed_leftOver (hb : block.Bounded) {address : Word} (hle : block.address.toNat ≤ address.toNat)
    (hend : address.toNat + size.toNat ≤ block.address.toNat + block.size.toNat) {whole : Set Nat}
    {parts : List (Set Nat)} (h : Packed whole (block.range :: parts)) :
    Packed whole (range ⟨address, size⟩ :: ((block.leftOver address size).map range ++ parts)) := by
  unfold Bounded at hb
  let front := Set.Ico block.address.toNat address.toNat
  let back := Set.Ico (address.toNat + size.toNat) (block.address.toNat + block.size.toNat)
  have hsplit : Packed whole (Set.Ico address.toNat (block.address.toNat + block.size.toNat) :: front :: parts) :=
    h.split (Set.Ico_subset_Ico_left hle) (Set.Ico_subset_Ico_right (by omega))
      (Set.Ico_disjoint_Ico.2 (by omega))
  have hpieces : Packed whole (range ⟨address, size⟩ :: back :: front :: parts) :=
    hsplit.split (Set.Ico_subset_Ico_right hend) (Set.Ico_subset_Ico_left (by omega))
      (Set.Ico_disjoint_Ico.2 (by show min (address.toNat + size.toNat) _ ≤ _; omega))
  have hsub : ((block.leftOver address size).map range).Sublist [front, back] := by
    have hfront : address > block.address → range ⟨block.address, address - block.address⟩ = front := by
      intro hlt
      rw [gt_iff_lt, BitVec.lt_def] at hlt
      rw [range_mk, BitVec.toNat_sub]
      congr 1
      omega
    have hback : address + size < block.address + block.size →
        range ⟨address + size, block.address + block.size - (address + size)⟩ = back := by
      intro hlt
      rw [BitVec.lt_def, BitVec.toNat_add, BitVec.toNat_add] at hlt
      rw [range_mk, BitVec.toNat_sub, BitVec.toNat_add, BitVec.toNat_add]
      congr 1 <;> omega
    unfold leftOver
    split_ifs with h1 h2 h2
    · simp [hfront h1, hback h2]
    · simp [hfront h1]
    · simp [hback h2]
    · simp
  have hperm : (range ⟨address, size⟩ :: back :: front :: parts).Perm
      (range ⟨address, size⟩ :: ([front, back] ++ parts)) := (List.Perm.swap _ _ _).cons _
  exact (hpieces.perm hperm).sublist ((hsub.append_right parts).cons_cons _)

theorem size_ne_zero_of_mem_leftOver (hb : block.Bounded) {address : Word}
    (hend : address.toNat + size.toNat ≤ block.address.toNat + block.size.toNat) {piece : MemoryBlock}
    (hpiece : piece ∈ block.leftOver address size) : piece.size ≠ 0 := by
  have hbounded : block.address.toNat + block.size.toNat < 2 ^ 32 := hb
  unfold leftOver at hpiece
  rcases List.mem_append.1 hpiece with hpiece | hpiece
  · split_ifs at hpiece with hlt
    · rw [List.mem_singleton.1 hpiece]
      intro hzero
      rw [gt_iff_lt, BitVec.lt_def] at hlt
      have := congrArg BitVec.toNat hzero
      rw [BitVec.toNat_sub] at this
      simp at this
      omega
    · simp at hpiece
  · split_ifs at hpiece with hlt
    · rw [List.mem_singleton.1 hpiece]
      intro hzero
      rw [BitVec.lt_def, BitVec.toNat_add, BitVec.toNat_add] at hlt
      have := congrArg BitVec.toNat hzero
      rw [BitVec.toNat_sub, BitVec.toNat_add, BitVec.toNat_add] at this
      simp at this
      omega
    · simp at hpiece

theorem range_join {previous current : MemoryBlock} (hp : previous.Bounded) (hc : current.Bounded)
    (h : previous.address + previous.size = current.address) :
    Bounded ⟨previous.address, previous.size + current.size⟩ ∧
      (previous.size ≠ 0 → previous.size + current.size ≠ 0) ∧
      range ⟨previous.address, previous.size + current.size⟩ = previous.range ∪ current.range := by
  unfold Bounded at hp hc
  have haddress := congrArg BitVec.toNat h
  rw [BitVec.toNat_add, Nat.mod_eq_of_lt hp] at haddress
  have hsize : (previous.size + current.size).toNat = previous.size.toNat + current.size.toNat := by
    rw [BitVec.toNat_add]
    omega
  refine ⟨?_, ?_, ?_⟩
  · show previous.address.toNat + (previous.size + current.size).toNat < 2 ^ 32
    rw [hsize]
    omega
  · intro hne hzero
    have := congrArg BitVec.toNat hzero
    rw [hsize] at this
    refine hne (BitVec.eq_of_toNat_eq ?_)
    simp at this ⊢
    omega
  · rw [range_mk, range, range, hsize, ← haddress, Set.Ico_union_Ico_eq_Ico (by omega) (by omega)]
    congr 1
    omega

end MemoryBlock

section
variable {motive : List (Set Nat) → Prop} {parts : List (Set Nat)}
open MemoryBlock

theorem mergeAdjacent_forall {Q : MemoryBlock → Prop}
    (hQ : ∀ previous current, Q previous → Q current → previous.address + previous.size = current.address →
      Q ⟨previous.address, previous.size + current.size⟩)
    {previous : MemoryBlock} {blocks : List MemoryBlock} (h : ∀ b ∈ previous :: blocks, Q b) :
    ∀ b ∈ mergeAdjacent previous blocks, Q b := by
  induction blocks generalizing previous with
  | nil => exact h
  | cons current rest ih =>
    have hp := h previous (by simp)
    have hc := h current (by simp)
    have hrest : ∀ b ∈ rest, Q b := fun b hb => h b (by simp [hb])
    unfold mergeAdjacent
    split_ifs with hadjacent
    · exact ih (List.forall_mem_cons.2 ⟨hQ previous current hp hc hadjacent, hrest⟩)
    · exact List.forall_mem_cons.2 ⟨hp, ih (List.forall_mem_cons.2 ⟨hc, hrest⟩)⟩

theorem pairwise_insertionSort_address (blocks : List MemoryBlock) :
    (blocks.insertionSort fun left right => left.address ≤ right.address).Pairwise
      (fun left right => left.address ≤ right.address) := by
  have : Std.Total fun left right : MemoryBlock => left.address ≤ right.address :=
    ⟨fun left right => BitVec.le_total left.address right.address⟩
  have : IsTrans MemoryBlock fun left right => left.address ≤ right.address :=
    ⟨fun _ _ _ => BitVec.le_trans⟩
  exact List.pairwise_insertionSort _ _

theorem mergeAdjacent_motive (hm : JoinStable motive) {previous : MemoryBlock} {blocks : List MemoryBlock}
    (hb : ∀ b ∈ previous :: blocks, b.Bounded) (h : motive ((previous :: blocks).map range ++ parts)) :
    motive ((mergeAdjacent previous blocks).map range ++ parts) := by
  induction blocks generalizing previous parts with
  | nil => exact h
  | cons current rest ih =>
    have hp := hb previous (by simp)
    have hc := hb current (by simp)
    have hrest : ∀ b ∈ rest, b.Bounded := fun b h => hb b (by simp [h])
    unfold mergeAdjacent
    split_ifs with hadjacent
    · obtain ⟨hbounded, -, hrange⟩ := range_join hp hc hadjacent
      refine ih (List.forall_mem_cons.2 ⟨hbounded, hrest⟩) ?_
      rw [List.map_cons, hrange]
      exact hm.join h
    · -- the first block is final: it moves behind the others for the induction
      have hmoved : motive ((current :: rest).map range ++ (previous.range :: parts)) :=
        hm.perm h List.perm_middle.symm
      exact hm.perm (ih (List.forall_mem_cons.2 ⟨hc, hrest⟩) hmoved) List.perm_middle

theorem putBack_cases (blocks : List MemoryBlock) (block : MemoryBlock) :
    ∃ first rest, (first :: rest).Perm (block :: blocks) ∧
      (first :: rest).Pairwise (fun left right => left.address ≤ right.address) ∧
      putBack blocks block = mergeAdjacent first rest := by
  have hperm : ((blocks ++ [block]).insertionSort fun left right => left.address ≤ right.address).Perm
      (block :: blocks) := (List.perm_insertionSort _ _).trans (List.perm_append_singleton block blocks)
  have hsorted : ((blocks ++ [block]).insertionSort fun left right => left.address ≤ right.address).Pairwise
      (fun left right => left.address ≤ right.address) := pairwise_insertionSort_address _
  unfold putBack
  generalize (blocks ++ [block]).insertionSort (fun left right => left.address ≤ right.address) = sorted
    at hperm hsorted
  cases sorted with
  | nil => exact absurd hperm.symm (List.cons_ne_nil _ _ ∘ List.Perm.eq_nil)
  | cons first rest => exact ⟨first, rest, hperm, hsorted, rfl⟩

theorem putBack_motive (hm : JoinStable motive) {blocks : List MemoryBlock} {block : MemoryBlock}
    (hb : ∀ b ∈ block :: blocks, b.Bounded) (h : motive ((block :: blocks).map range ++ parts)) :
    motive ((putBack blocks block).map range ++ parts) := by
  obtain ⟨first, rest, hperm, -, hput⟩ := putBack_cases blocks block
  rw [hput]
  exact mergeAdjacent_motive hm (fun b hmem => hb b (hperm.mem_iff.1 hmem))
    (hm.perm h ((hperm.symm.map range).append_right parts))

theorem putBack_forall {Q : MemoryBlock → Prop}
    (hQ : ∀ previous current, Q previous → Q current → previous.address + previous.size = current.address →
      Q ⟨previous.address, previous.size + current.size⟩)
    {blocks : List MemoryBlock} {block : MemoryBlock} (h : ∀ b ∈ block :: blocks, Q b) :
    ∀ b ∈ putBack blocks block, Q b := by
  obtain ⟨first, rest, hperm, -, hput⟩ := putBack_cases blocks block
  rw [hput]
  exact mergeAdjacent_forall hQ fun b hmem => h b (hperm.mem_iff.1 hmem)

theorem putBack_bounded {blocks : List MemoryBlock} {block : MemoryBlock}
    (hb : ∀ b ∈ block :: blocks, b.Bounded ∧ b.size ≠ 0) :
    ∀ b ∈ putBack blocks block, b.Bounded ∧ b.size ≠ 0 := by
  refine putBack_forall (fun previous current hp hc hadjacent => ?_) hb
  obtain ⟨hbounded, hne, -⟩ := range_join hp.1 hc.1 hadjacent
  exact ⟨hbounded, hne hp.2⟩

end

/-! ### Lists of regions -/

theorem perm_of_count {α : Type*} {l l' : List α}
    (h : ∀ [DecidableEq α] (a : α), l.count a = l'.count a) : l.Perm l' := by
  classical
  exact List.perm_iff_count.2 h

theorem perm_of_find? {α : Type*} {l : List α} {p : α → Bool} {a : α} (h : l.find? p = some a) :
    l.Perm (a :: l.eraseP p) := by
  obtain ⟨hp, as, bs, rfl, has⟩ := List.find?_eq_some_iff_append.1 h
  rw [List.eraseP_append_right (a :: bs) (fun b hb => by simpa using has b hb), List.eraseP_cons_of_pos hp]
  exact List.perm_middle

/-! ### The invariant -/

/-- The blocks that `putBack` and `leftOver` are told about, as the packing knows them. -/
theorem MemoryBlock.bounded_of_inside {m : ConfiguredMemory} {block : MemoryBlock}
    (hin : block.range ⊆ m.range) (hne : block.size ≠ 0) :
    m.base.toNat ≤ block.address.toNat ∧
      block.address.toNat + block.size.toNat ≤ m.base.toNat + m.size ∧ block.Bounded := by
  have hpos : 0 < block.size.toNat := by
    rcases Nat.eq_zero_or_pos block.size.toNat with hzero | hpos
    · exact absurd (BitVec.eq_of_toNat_eq hzero) hne
    · exact hpos
  obtain ⟨hlo, hhi⟩ := (Set.Ico_subset_Ico_iff (by omega)).1 hin
  have hfits := m.fits
  exact ⟨hlo, hhi, by show _ < _; omega⟩

structure HeapRun.Inv (m : ConfiguredMemory) (r : HeapRun) : Prop where
  base : r.heap.memoryBase = m.base
  cursor : r.heap.heapCursor.toNat + 64 ≤ 2 ^ 32
  stack : r.heap.stackCursor.toNat ≤ m.size
  nonempty : ∀ b ∈ r.heap.freeHeapBlocks, b.size ≠ 0
  packed : Packed m.range (r.regions m)

namespace HeapRun.Inv
variable {m : ConfiguredMemory} {r : HeapRun}

theorem free (h : r.Inv m) {block : MemoryBlock} (hmem : block ∈ r.heap.freeHeapBlocks) :
    m.base.toNat ≤ block.address.toNat ∧
      block.address.toNat + block.size.toNat ≤ m.base.toNat + m.size ∧ block.Bounded := by
  refine MemoryBlock.bounded_of_inside (h.packed.inside _ ?_) (h.nonempty block hmem)
  simp only [HeapRun.regions, List.mem_cons, List.mem_map, List.mem_append]
  exact .inr (.inr ⟨block, .inl (.inr hmem), rfl⟩)

theorem live (h : r.Inv m) {block : MemoryBlock} (hmem : block ∈ r.live) : block.range ⊆ m.range := by
  refine h.packed.inside _ ?_
  simp only [HeapRun.regions, List.mem_cons, List.mem_map, List.mem_append]
  exact .inr (.inr ⟨block, .inl (.inl hmem), rfl⟩)

theorem drop_live (h : r.Inv m) {block : MemoryBlock} {blocks : List MemoryBlock}
    (hlive : r.live = block :: blocks) : Inv m { r with live := blocks } := by
  refine ⟨h.base, h.cursor, h.stack, h.nonempty, h.packed.sublist ?_⟩
  simp only [HeapRun.regions, hlive, List.cons_append, List.map_cons]
  exact ((List.sublist_cons_self _ _).cons_cons _).cons_cons _

/-- The returned address is a multiple of the alignment, also when it is zero. -/
theorem allocateHeap_dvd (h : r.Inv m) {alignment : Word} (ha : IsAlignment alignment) (size : Word) :
    alignment.toNat ∣ (r.heap.allocateHeap size alignment).1.toNat := by
  unfold Heap.allocateHeap
  split
  · exact alignUp_dvd ha _
  dsimp only
  split
  · exact dvd_zero _
  obtain ⟨k, hk, rfl⟩ := ha
  have hpow : (BitVec.ofNat 32 (2 ^ k)).toNat = 2 ^ k := by
    rw [BitVec.toNat_ofNat, Nat.mod_eq_of_lt (Nat.pow_lt_pow_right (by omega) (by omega))]
  have hdvd := alignUp_dvd ⟨k, hk, rfl⟩ r.heap.heapCursor
  have hbase : (BitVec.ofNat 32 (2 ^ k)).toNat ∣ m.base.toNat := by
    rw [hpow]
    exact (pow_dvd_pow 2 (show k ≤ 6 by omega)).trans m.base_aligned
  rw [h.base, BitVec.toNat_add]
  refine (Nat.dvd_mod_iff ?_).2 (Nat.dvd_add hbase hdvd)
  rw [hpow]
  exact pow_dvd_pow 2 (by omega)

theorem allocateHeap_free (h : r.Inv m) {size alignment address : Word} {block : MemoryBlock}
    (hfind : r.heap.freeHeapBlocks.find? (MemoryBlock.fits size alignment) = some block)
    (haddress : alignUp block.address alignment = address) :
    Inv m { r with
      heap := { r.heap with freeHeapBlocks :=
        r.heap.freeHeapBlocks.eraseP (MemoryBlock.fits size alignment) ++ block.leftOver address size }
      live := ⟨address, size⟩ :: r.live } := by
  have hmem := List.mem_of_find?_eq_some hfind
  have hfits := List.find?_some hfind
  obtain ⟨-, -, hbounded⟩ := h.free hmem
  obtain ⟨hle, hend⟩ := (MemoryBlock.fits_iff hbounded).1 hfits
  rw [haddress] at hle hend
  have hperm : r.heap.freeHeapBlocks.Perm
      (block :: r.heap.freeHeapBlocks.eraseP (MemoryBlock.fits size alignment)) := perm_of_find? hfind
  have hpacked : Packed m.range (block.range :: m.image :: r.heap.middle ::
      (r.live ++ r.heap.freeHeapBlocks.eraseP (MemoryBlock.fits size alignment) ++ r.reserved).map
        MemoryBlock.range) := by
    refine h.packed.perm ?_
    have := ((hperm.append_left r.live).append_right r.reserved).map MemoryBlock.range
    refine ((this.cons _).cons _).trans (perm_of_count fun a => ?_)
    simp only [List.map_append, List.map_cons, List.count_cons, List.count_append]
    omega
  have hpieces := MemoryBlock.packed_leftOver hbounded hle hend hpacked
  refine ⟨h.base, h.cursor, h.stack, ?_, ?_⟩
  · intro b hb
    rcases List.mem_append.1 hb with hb | hb
    · exact h.nonempty b (List.mem_of_mem_eraseP hb)
    · exact MemoryBlock.size_ne_zero_of_mem_leftOver hbounded hend hb
  · refine hpieces.perm (perm_of_count fun a => ?_)
    simp only [HeapRun.regions, Heap.middle, List.map_append, List.map_cons, List.count_cons,
      List.count_append]
    omega

theorem allocateHeap_cursor (h : r.Inv m) {size alignment address : Word} (ha : IsAlignment alignment)
    (haddress : alignUp r.heap.heapCursor alignment = address) (hsize : ¬ size > r.heap.stackCursor)
    (hroom : ¬ address > r.heap.stackCursor - size) :
    Inv m { r with
      heap := { r.heap with heapCursor := address + size }
      live := ⟨r.heap.memoryBase + address, size⟩ :: r.live } := by
  have hbounds := alignUp_bounds ha h.cursor
  rw [haddress] at hbounds
  have hstack := h.stack
  have hfits := m.fits
  have hbase := congrArg BitVec.toNat h.base
  have hle : address.toNat + size.toNat ≤ r.heap.stackCursor.toNat := by
    rw [gt_iff_lt, BitVec.lt_def] at hsize hroom
    rw [BitVec.toNat_sub] at hroom
    omega
  have hcursor : (address + size).toNat = address.toNat + size.toNat := by
    rw [BitVec.toNat_add]
    omega
  have hnew : (r.heap.memoryBase + address).toNat = r.heap.memoryBase.toNat + address.toNat := by
    rw [BitVec.toNat_add]
    omega
  refine ⟨h.base, ?_, h.stack, h.nonempty, ?_⟩
  · show (address + size).toNat + 64 ≤ 2 ^ 32
    omega
  · have hpacked : Packed m.range (r.heap.middle :: m.image ::
        (r.live ++ r.heap.freeHeapBlocks ++ r.reserved).map MemoryBlock.range) :=
      h.packed.perm (List.Perm.swap _ _ _)
    have hmiddle : Heap.middle { r.heap with heapCursor := address + size } =
        Set.Ico (r.heap.memoryBase.toNat + (address.toNat + size.toNat))
          (r.heap.memoryBase.toNat + r.heap.stackCursor.toNat) := by
      rw [← hcursor]
      rfl
    have hblock : MemoryBlock.range ⟨r.heap.memoryBase + address, size⟩ =
        Set.Ico (r.heap.memoryBase.toNat + address.toNat)
          (r.heap.memoryBase.toNat + address.toNat + size.toNat) := by
      rw [← hnew]
      rfl
    have hsplit : Packed m.range (MemoryBlock.range ⟨r.heap.memoryBase + address, size⟩ ::
        Heap.middle { r.heap with heapCursor := address + size } :: m.image ::
        (r.live ++ r.heap.freeHeapBlocks ++ r.reserved).map MemoryBlock.range) := by
      rw [hmiddle, hblock]
      exact hpacked.split (Set.Ico_subset_Ico (by omega) (by omega)) (Set.Ico_subset_Ico_left (by omega))
        (Set.Ico_disjoint_Ico.2 (by omega))
    refine hsplit.perm (perm_of_count fun a => ?_)
    simp only [HeapRun.regions, List.map_append, List.map_cons, List.count_cons, List.count_append]
    omega

theorem freeHeap (h : r.Inv m) {block : MemoryBlock} (hmem : block ∈ r.live) :
    Inv m { r with heap := r.heap.freeHeap block, live := r.live.erase block } := by
  have hlive := List.perm_cons_erase hmem
  have hpacked : Packed m.range ((block :: r.heap.freeHeapBlocks).map MemoryBlock.range ++
      (m.image :: r.heap.middle :: (r.live.erase block ++ r.reserved).map MemoryBlock.range)) := by
    refine h.packed.perm ?_
    have := ((hlive.append_right r.heap.freeHeapBlocks).append_right r.reserved).map MemoryBlock.range
    refine ((this.cons _).cons _).trans (perm_of_count fun a => ?_)
    simp only [List.map_append, List.map_cons, List.cons_append, List.count_cons, List.count_append]
    omega
  by_cases hnull : block.address = 0 ∨ block.size = 0
  · rw [Heap.freeHeap, if_pos hnull]
    have htail : Packed m.range (r.heap.freeHeapBlocks.map MemoryBlock.range ++
        (m.image :: r.heap.middle :: (r.live.erase block ++ r.reserved).map MemoryBlock.range)) := hpacked.tail
    refine ⟨h.base, h.cursor, h.stack, h.nonempty, htail.perm (perm_of_count fun a => ?_)⟩
    simp only [HeapRun.regions, List.map_append, List.count_cons, List.count_append]
    omega
  · rw [Heap.freeHeap, if_neg hnull]
    obtain ⟨-, -, hbounded⟩ := MemoryBlock.bounded_of_inside (h.live hmem) (not_or.1 hnull).2
    have hbounds : ∀ b ∈ block :: r.heap.freeHeapBlocks, b.Bounded ∧ b.size ≠ 0 :=
      List.forall_mem_cons.2 ⟨⟨hbounded, (not_or.1 hnull).2⟩, fun b hb => ⟨(h.free hb).2.2, h.nonempty b hb⟩⟩
    have hput := putBack_motive (Packed.joinStable m.range) (fun b hb => (hbounds b hb).1) hpacked
    refine ⟨h.base, h.cursor, h.stack, fun b hb => (putBack_bounded hbounds b hb).2, ?_⟩
    refine hput.perm (perm_of_count fun a => ?_)
    simp only [HeapRun.regions, Heap.middle, List.map_append, List.count_cons, List.count_append]
    omega

theorem allocateStack (h : r.Inv m) (size : Word) :
    let heap := (r.heap.allocateStack size).2
    Inv m { r with
      heap
      reserved := ⟨heap.memoryBase + heap.stackCursor, r.heap.stackCursor - heap.stackCursor⟩ :: r.reserved } := by
  unfold Heap.allocateStack
  dsimp only
  generalize alignUp size 64 = size
  split_ifs with hfail
  · -- nothing is reserved
    have hempty : MemoryBlock.range ⟨r.heap.memoryBase + r.heap.stackCursor,
        r.heap.stackCursor - r.heap.stackCursor⟩ = ∅ := by
      rw [MemoryBlock.range_mk, BitVec.sub_self]
      exact Set.Ico_self _
    refine ⟨h.base, h.cursor, h.stack, h.nonempty, h.packed.empty_cons.perm (perm_of_count fun a => ?_)⟩
    simp only [HeapRun.regions, List.map_append, List.map_cons, List.count_cons, List.count_append, hempty]
    omega
  · rw [not_or, gt_iff_lt, BitVec.lt_def, BitVec.lt_def, BitVec.toNat_sub] at hfail
    have hstack := h.stack
    have hfits := m.fits
    have hbase := congrArg BitVec.toNat h.base
    have hcursor : (r.heap.stackCursor - size).toNat = r.heap.stackCursor.toNat - size.toNat := by
      rw [BitVec.toNat_sub]
      omega
    have hsize : r.heap.stackCursor - (r.heap.stackCursor - size) = size := sub_sub_cancel _ _
    have hmiddle : Heap.middle { r.heap with stackCursor := r.heap.stackCursor - size } =
        Set.Ico (r.heap.memoryBase.toNat + r.heap.heapCursor.toNat)
          (r.heap.memoryBase.toNat + (r.heap.stackCursor.toNat - size.toNat)) := by
      rw [← hcursor]
      rfl
    have hblock : MemoryBlock.range ⟨r.heap.memoryBase + (r.heap.stackCursor - size), size⟩ =
        Set.Ico (r.heap.memoryBase.toNat + (r.heap.stackCursor.toNat - size.toNat))
          (r.heap.memoryBase.toNat + (r.heap.stackCursor.toNat - size.toNat) + size.toNat) := by
      rw [MemoryBlock.range_mk, BitVec.toNat_add, hcursor, Nat.mod_eq_of_lt (by omega)]
    have hpacked : Packed m.range (r.heap.middle :: m.image ::
        (r.live ++ r.heap.freeHeapBlocks ++ r.reserved).map MemoryBlock.range) :=
      h.packed.perm (List.Perm.swap _ _ _)
    have hsplit : Packed m.range (MemoryBlock.range ⟨r.heap.memoryBase + (r.heap.stackCursor - size), size⟩ ::
        Heap.middle { r.heap with stackCursor := r.heap.stackCursor - size } :: m.image ::
        (r.live ++ r.heap.freeHeapBlocks ++ r.reserved).map MemoryBlock.range) := by
      rw [hmiddle, hblock]
      exact hpacked.split (Set.Ico_subset_Ico (by omega) (by omega)) (Set.Ico_subset_Ico_right (by omega))
        (Set.Ico_disjoint_Ico.2 (by omega))
    refine ⟨h.base, h.cursor, by show (r.heap.stackCursor - size).toNat ≤ m.size; omega, h.nonempty, ?_⟩
    refine hsplit.perm (perm_of_count fun a => ?_)
    simp only [HeapRun.regions, List.map_append, List.map_cons, List.count_cons, List.count_append, hsize]
    omega

theorem allocateHeap (h : r.Inv m) {alignment : Word} (ha : IsAlignment alignment) (size : Word) :
    r.heap.allocateHeap size alignment = (0, r.heap) ∨
      Inv m { r with
        heap := (r.heap.allocateHeap size alignment).2
        live := ⟨(r.heap.allocateHeap size alignment).1, size⟩ :: r.live } := by
  unfold Heap.allocateHeap
  cases hfind : r.heap.freeHeapBlocks.find? (MemoryBlock.fits size alignment) with
  | some block => exact .inr (h.allocateHeap_free hfind rfl)
  | none =>
    dsimp only
    split_ifs with hfail
    · exact .inl rfl
    · exact .inr (h.allocateHeap_cursor ha rfl (not_or.1 hfail).1 (not_or.1 hfail).2)

theorem step (h : r.Inv m) {call : HeapCall} {r' : HeapRun} (hstep : r.step call = some r') : r'.Inv m := by
  cases call with
  | allocateHeap size alignment =>
    simp only [HeapRun.step] at hstep
    by_cases ha : IsAlignment alignment
    · rw [if_pos ha] at hstep
      obtain rfl := Option.some.inj hstep
      rcases h.allocateHeap ha size with hfail | hinv
      · rw [hfail, if_pos rfl]
        exact h
      · split_ifs
        · exact hinv.drop_live rfl
        · exact hinv
    · rw [if_neg ha] at hstep
      cases hstep
  | freeHeap block =>
    obtain ⟨hmem, ⟨⟩⟩ := Option.ite_none_right_eq_some.1 hstep
    exact h.freeHeap hmem
  | allocateStack size =>
    obtain rfl := Option.some.inj hstep
    exact h.allocateStack size

end HeapRun.Inv

namespace ConfiguredMemory
variable (m : ConfiguredMemory)

theorem stackCursor_le : m.heap.stackCursor.toNat ≤ m.size := by
  have hfits := m.fits
  show (BitVec.ofNat 32 _).toNat ≤ m.size
  rw [BitVec.toNat_ofNat]
  split <;> omega

theorem imageSize_le_heapCursor : m.imageSize ≤ (alignUp (BitVec.ofNat 32 m.imageSize) 64).toNat := by
  have hfits := m.fits
  have hinside := m.image_inside
  have hend : (BitVec.ofNat 32 m.imageSize).toNat = m.imageSize := by
    rw [BitVec.toNat_ofNat]
    omega
  have hroom : (BitVec.ofNat 32 m.imageSize).toNat + 64 ≤ 2 ^ 32 := by omega
  have hle := (alignUp_bounds isAlignment_sixtyFour hroom).1
  rwa [hend] at hle

theorem packed_image_middle : Packed m.range [m.image, m.heap.middle] := by
  have hfits := m.fits
  have hinside := m.image_inside
  have hstack := m.stackCursor_le
  have hbounds := m.imageSize_le_heapCursor
  have himage : m.image ⊆ m.range := Set.Ico_subset_Ico (by omega) (by omega)
  have hmiddle : m.heap.middle ⊆ m.range := Set.Ico_subset_Ico (Nat.le_add_right _ _) (by
    show m.base.toNat + m.heap.stackCursor.toNat ≤ _
    omega)
  have hdisjoint : Disjoint m.image m.heap.middle := Set.Ico_disjoint_Ico.2 (by
    show min (m.base.toNat + m.imageSize) _ ≤ max _ (m.base.toNat + (alignUp _ _).toNat)
    omega)
  exact ⟨by simp [hdisjoint], by simp [himage, hmiddle]⟩

/-- The block below the image, where user memory begins before the image does. -/
theorem packed_low (hle : m.base ≤ (0x08800000 : Word)) (hlt : (0x08800000 : Word).toNat < m.base.toNat + m.imageStart.toNat) :
    Packed m.range [Set.Ico (0x08800000 : Word).toNat (m.base.toNat + m.imageStart.toNat), m.image, m.heap.middle] := by
  have hordered := m.image_ordered
  have hinside := m.image_inside
  rw [BitVec.le_def] at hle
  have hbounds := m.imageSize_le_heapCursor
  refine Packed.cons_iff.2 ⟨Set.Ico_subset_Ico hle (by omega), ?_, m.packed_image_middle⟩
  intro q hq
  rcases List.mem_cons.1 hq with rfl | hq
  · exact Set.Ico_disjoint_Ico.2 (by omega)
  · rw [List.mem_singleton.1 hq]
    refine Set.Ico_disjoint_Ico.2 ?_
    show min (m.base.toNat + m.imageStart.toNat) _ ≤ max _ (m.base.toNat + (alignUp _ _).toNat)
    omega

theorem heap_inv : HeapRun.Inv m { heap := m.heap } := by
  have hfits := m.fits
  have hordered := m.image_ordered
  have hinside := m.image_inside
  have hcursor : m.heap.heapCursor.toNat + 64 ≤ 2 ^ 32 := by
    have hdvd : 64 ∣ m.heap.heapCursor.toNat := alignUp_dvd isAlignment_sixtyFour _
    have hlt := m.heap.heapCursor.isLt
    omega
  by_cases hfree : m.base ≤ (0x08800000 : Word) ∧ m.base + m.imageStart > (0x08800000 : Word) ∧
      (m.base + m.imageStart).toNat ≤ m.base.toNat + m.size
  · have hstart : (m.base + m.imageStart).toNat = m.base.toNat + m.imageStart.toNat := by
      rw [BitVec.toNat_add]
      omega
    have hlt := hfree.2.1
    rw [gt_iff_lt, BitVec.lt_def, hstart] at hlt
    have hsize : (m.base + m.imageStart - (0x08800000 : Word)).toNat =
        m.base.toNat + m.imageStart.toNat - (0x08800000 : Word).toNat := by
      rw [BitVec.toNat_sub, hstart]
      omega
    have hblocks : m.heap.freeHeapBlocks = [⟨0x08800000, m.base + m.imageStart - (0x08800000 : Word)⟩] :=
      if_pos hfree
    have hrange : MemoryBlock.range ⟨0x08800000, m.base + m.imageStart - (0x08800000 : Word)⟩ =
        Set.Ico (0x08800000 : Word).toNat (m.base.toNat + m.imageStart.toNat) := by
      rw [MemoryBlock.range_mk, hsize, Nat.add_sub_cancel' hlt.le]
    refine ⟨rfl, hcursor, m.stackCursor_le, ?_, ?_⟩
    · intro b hb
      rw [show b = _ from List.mem_singleton.1 (hblocks ▸ hb)]
      intro hzero
      have := congrArg BitVec.toNat hzero
      rw [hsize] at this
      simp at this hlt
      omega
    · refine (hrange ▸ m.packed_low hfree.1 hlt).perm (perm_of_count fun a => ?_)
      simp only [HeapRun.regions, hblocks, List.nil_append, List.append_nil, List.map_cons, List.map_nil,
        List.count_cons, List.count_nil]
      omega
  · have hblocks : m.heap.freeHeapBlocks = [] := if_neg hfree
    refine ⟨rfl, hcursor, m.stackCursor_le, by simp [hblocks], ?_⟩
    simp only [HeapRun.regions, hblocks, List.append_nil, List.map_nil]
    exact m.packed_image_middle

end ConfiguredMemory

/-- Image, blocks, middle and stacks stay apart in guest memory, and blocks are aligned as asked for. -/
theorem heap_packed (m : ConfiguredMemory) (calls : List HeapCall) (r : HeapRun)
    (hrun : run HeapRun.step { heap := m.heap } calls = some r) :
    (r.regions m).Pairwise Disjoint ∧ (∀ p ∈ r.regions m, p ⊆ m.range) ∧
      ∀ size alignment, IsAlignment alignment →
        alignment.toNat ∣ (r.heap.allocateHeap size alignment).1.toNat := by
  have h : r.Inv m := run_invariant (fun _ _ _ h hstep => h.step hstep) m.heap_inv hrun
  exact ⟨h.packed.disjoint, h.packed.inside, fun size _ ha => h.allocateHeap_dvd ha size⟩

/-- Guest memory as the project's `main` lays it out for an image linked behind 0x08804000. -/
def userMemory : ConfiguredMemory where
  base := 0x08800000
  size := 0x01800000
  imageStart := 0x4000
  imageSize := 0x6000
  base_aligned := by decide
  fits := by decide
  image_ordered := by decide
  image_inside := by decide

/-- A block out of the free one before the image, another above the image, the first freed again, and a
stack. -/
theorem heap_packed_userMemory :
    let calls : List HeapCall := [.allocateHeap 0x100 64, .allocateHeap 0x10000 8,
      .freeHeap ⟨0x08800000, 0x100⟩, .allocateStack 0x1001]
    ∃ r, run HeapRun.step { heap := userMemory.heap } calls = some r ∧
      r.live = [⟨0x08806000, 0x10000⟩] ∧ r.reserved = [⟨0x09fbefc0, 0x1040⟩] ∧
      (r.regions userMemory).Pairwise Disjoint := by
  intro calls
  obtain ⟨r, hrun⟩ : ∃ r, run HeapRun.step { heap := userMemory.heap } calls = some r :=
    Option.isSome_iff_exists.1 (by decide)
  have hvalues : (run HeapRun.step { heap := userMemory.heap } calls).map (fun r => (r.live, r.reserved)) =
      some ([⟨0x08806000, 0x10000⟩], [⟨0x09fbefc0, 0x1040⟩]) := by
    decide
  rw [hrun] at hvalues
  have hpair := Option.some.inj hvalues
  exact ⟨r, hrun, congrArg Prod.fst hpair, congrArg Prod.snd hpair, (heap_packed userMemory calls r hrun).1⟩

end Psprism
