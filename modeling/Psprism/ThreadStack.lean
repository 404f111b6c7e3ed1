import Psprism.Heap

/-!
# Thread stacks (`sceKernelCreateThread.cpp`, `sceKernelDeleteThread.cpp`)

Creating a thread takes a stack and 0x100 bytes of thread-local storage. The stack is cut off the middle of
the heap with its size rounded up to 64, and the thread remembers the size before the rounding. Above
0xffffffc0 the rounding wraps to zero: the thread gets a stack of almost 4 GiB where nothing was cut off.

No call gives this memory back, so `ThreadRun` counts it as reserved.
-/

namespace Psprism
open Interleaving

/-- Guest memory as it is once `configure_guest_memory` has run: a base of zero stands for none. -/
structure PlacedMemory extends ConfiguredMemory where
  base_ne_zero : base ≠ 0

/-- The stack of the initial thread, above the first stack cursor. -/
def ConfiguredMemory.initialStack (m : ConfiguredMemory) : Set Nat :=
  Set.Ico (m.base.toNat + m.heap.stackCursor.toNat) (m.base.toNat + m.size)

/-- `GuestThread`; `joinable` is that of its host thread. -/
structure KernelThread where
  uid : Int
  stackAddress : Word
  stackSize : Word
  tlsAddress : Word
  joinable : Bool := false
deriving DecidableEq

namespace KernelThread

def stack (t : KernelThread) : Set Nat :=
  Set.Ico t.stackAddress.toNat (t.stackAddress.toNat + t.stackSize.toNat)

def tls (t : KernelThread) : MemoryBlock := ⟨t.tlsAddress, 0x100⟩

end KernelThread

namespace HeapRun

def takeStack (r : HeapRun) (size : Word) : Word × HeapRun :=
  let (address, heap) := r.heap.allocateStack size
  let stack := ⟨heap.memoryBase + heap.stackCursor, r.heap.stackCursor - heap.stackCursor⟩
  (address, { r with heap, reserved := stack :: r.reserved })

def takeTls (r : HeapRun) : Word × HeapRun :=
  let (address, heap) := r.heap.allocateHeap 0x100 64
  (address, { r with heap, reserved := if address = 0 then r.reserved else ⟨address, 0x100⟩ :: r.reserved })

end HeapRun

structure ThreadRun where
  memory : HeapRun
  guestExecutor : Bool
  threads : List KernelThread := []
  nextUid : Int := 0x100

/-- `startThread` is what `sceKernelStartThread` does to the host thread, and `joinThread` what
`sceKernelWaitThreadEnd` does. The other callers of the allocator are `heap`. -/
inductive ThreadCall
  | createThread (stackSize : Word)
  | deleteThread (uid : Int)
  | startThread (uid : Int)
  | joinThread (uid : Int)
  | heap (call : HeapCall)

namespace ThreadRun

/-- `std::max(gpr[7], 0x4000)`. -/
def requestedStack (stackSize : Word) : Word := if stackSize < 0x4000 then 0x4000 else stackSize

def sceKernelCreateThread (r : ThreadRun) (stackSize : Word) : ThreadRun × Word :=
  let (stack, memory) := r.memory.takeStack (requestedStack stackSize)
  let (tls, memory) := memory.takeTls
  if stack = 0 ∨ tls = 0 ∨ ¬ r.guestExecutor then ({ r with memory }, 0x80020190)
  else
    let thread : KernelThread := ⟨r.nextUid, stack, requestedStack stackSize, tls, false⟩
    ({ r with memory, threads := thread :: r.threads, nextUid := r.nextUid + 1 }, BitVec.ofInt 32 r.nextUid)

/-- No reply for a thread that is not there or that runs. -/
def sceKernelDeleteThread (r : ThreadRun) (uid : Int) : ThreadRun × Option Word :=
  match r.threads.find? (·.uid = uid) with
  | none => (r, none)
  | some thread =>
    if thread.joinable then (r, none)
    else ({ r with threads := r.threads.eraseP (·.uid = uid) }, some 0)

def setJoinable (r : ThreadRun) (uid : Int) (joinable : Bool) : ThreadRun :=
  { r with threads := r.threads.map fun t => if t.uid = uid then { t with joinable } else t }

def step (r : ThreadRun) : ThreadCall → Option ThreadRun
  | .createThread stackSize => some (r.sceKernelCreateThread stackSize).1
  | .deleteThread uid => some (r.sceKernelDeleteThread uid).1
  | .startThread uid => some (r.setJoinable uid true)
  | .joinThread uid => some (r.setJoinable uid false)
  | .heap call => (r.memory.step call).map fun memory => { r with memory }

/-- The stack of `t` shares no byte with what `r` holds besides it. -/
structure StackApart (m : PlacedMemory) (r : ThreadRun) (t : KernelThread) (others : List KernelThread) :
    Prop where
  inside : t.stack ⊆ m.range
  image : Disjoint t.stack m.image
  live : ∀ block ∈ r.memory.live, Disjoint t.stack block.range
  tls : ∀ u ∈ t :: others, Disjoint t.stack u.tls.range
  threads : ∀ u ∈ others, Disjoint t.stack u.stack
  initial : Disjoint t.stack m.initialStack

/-- The call fails, or the thread it makes has a stack of its own. -/
def CreatesApart (m : PlacedMemory) (r : ThreadRun) (stackSize : Word) : Prop :=
  let (r', v0) := r.sceKernelCreateThread stackSize
  r'.threads = r.threads ∧ v0 = 0x80020190 ∨ ∃ t, r'.threads = t :: r.threads ∧ r'.StackApart m t r.threads

end ThreadRun

/-- The cursors leave room for an empty stack, and `allocate_heap` for the thread-local storage. -/
def Heap.HasRoom (h : Heap) : Prop := h.heapCursor ≤ h.stackCursor ∧ (h.allocateHeap 0x100 64).1 ≠ 0

instance (h : Heap) : Decidable h.HasRoom := inferInstanceAs (Decidable (_ ∧ _))

/-! ### Rounding a size -/

theorem le_alignUp {size : Word} (h : size ≤ (0xffffffc0 : Word)) : size.toNat ≤ (alignUp size 64).toNat := by
  rw [BitVec.le_def] at h
  exact (alignUp_bounds isAlignment_sixtyFour (show size.toNat + 64 ≤ 2 ^ 32 by simp at h; omega)).1

theorem alignUp_wraps {size : Word} (h : ¬ size ≤ (0xffffffc0 : Word)) : alignUp size 64 = 0 := by
  have hx := toNat_alignUp (k := 6) (show (64 : Word).toNat = 2 ^ 6 by decide) size
  have hlt := size.isLt
  have hsum : (size + 64 - 1).toNat = size.toNat + 63 - 2 ^ 32 := by
    rw [BitVec.le_def] at h
    rw [BitVec.toNat_sub, BitVec.toNat_add]
    simp at h ⊢
    omega
  refine BitVec.eq_of_toNat_eq ?_
  rw [hsum, Nat.mod_eq_of_lt (by omega)] at hx
  show (alignUp size 64).toNat = 0
  omega

/-! ### The allocator -/

namespace Heap

theorem allocateStack_cases (h : Heap) (size : Word) :
    h.allocateStack size = (0, h) ∨
      (alignUp size 64).toNat ≤ h.stackCursor.toNat ∧
        h.heapCursor.toNat + (alignUp size 64).toNat ≤ h.stackCursor.toNat ∧
        h.allocateStack size = (h.memoryBase + (h.stackCursor - alignUp size 64),
          { h with stackCursor := h.stackCursor - alignUp size 64 }) := by
  unfold allocateStack
  dsimp only
  split_ifs with hfail
  · exact .inl rfl
  · rw [not_or, gt_iff_lt, BitVec.lt_def, BitVec.lt_def, BitVec.toNat_sub] at hfail
    exact .inr ⟨by omega, by omega, rfl⟩

theorem allocateHeap_stackCursor (h : Heap) (size alignment : Word) :
    (h.allocateHeap size alignment).2.stackCursor = h.stackCursor := by
  unfold allocateHeap
  split
  · rfl
  · dsimp only
    split_ifs <;> rfl

theorem freeHeap_stackCursor (h : Heap) (block : MemoryBlock) : (h.freeHeap block).stackCursor = h.stackCursor := by
  unfold freeHeap
  split_ifs <;> rfl

theorem allocateStack_le (h : Heap) (size : Word) :
    (h.allocateStack size).2.stackCursor.toNat ≤ h.stackCursor.toNat := by
  rcases h.allocateStack_cases size with heq | ⟨hle, -, heq⟩
  · rw [heq]
  · rw [heq]
    show (h.stackCursor - alignUp size 64).toNat ≤ _
    rw [BitVec.toNat_sub]
    omega

end Heap

namespace HeapRun

theorem step_stackCursor_le {r r' : HeapRun} {call : HeapCall} (hstep : r.step call = some r') :
    r'.heap.stackCursor.toNat ≤ r.heap.stackCursor.toNat := by
  cases call with
  | allocateHeap size alignment =>
    obtain ⟨-, ⟨⟩⟩ := Option.ite_none_right_eq_some.1 hstep
    exact (congrArg BitVec.toNat (r.heap.allocateHeap_stackCursor size alignment)).le
  | freeHeap block =>
    obtain ⟨-, ⟨⟩⟩ := Option.ite_none_right_eq_some.1 hstep
    exact (congrArg BitVec.toNat (r.heap.freeHeap_stackCursor block)).le
  | allocateStack size =>
    obtain rfl := Option.some.inj hstep
    exact r.heap.allocateStack_le size

end HeapRun

/-! ### The invariant -/

/-- Every stack begins at or above the stack cursor. -/
structure ThreadRun.Inv (m : PlacedMemory) (r : ThreadRun) : Prop where
  memory : r.memory.Inv m.toConfiguredMemory
  cursor : r.memory.heap.stackCursor.toNat ≤ m.heap.stackCursor.toNat
  above : ∀ t ∈ r.threads, m.base.toNat + r.memory.heap.stackCursor.toNat ≤ t.stackAddress.toNat
  tls : ∀ t ∈ r.threads, t.tls ∈ r.memory.reserved

namespace HeapRun.Inv
variable {m : ConfiguredMemory} {r : HeapRun}

theorem takeStack (h : r.Inv m) (size : Word) : (r.takeStack size).2.Inv m := h.allocateStack size

theorem reserve (h : r.Inv m) {block : MemoryBlock} {blocks : List MemoryBlock} (hlive : r.live = block :: blocks) :
    Inv m { r with live := blocks, reserved := block :: r.reserved } := by
  refine ⟨h.base, h.cursor, h.stack, h.nonempty, h.packed.perm (perm_of_count fun a => ?_)⟩
  simp only [HeapRun.regions, hlive, List.map_append, List.map_cons, List.count_cons, List.count_append]
  omega

theorem takeTls (h : r.Inv m) : r.takeTls.2.Inv m := by
  unfold HeapRun.takeTls
  dsimp only
  rcases h.allocateHeap isAlignment_sixtyFour 0x100 with hfail | hinv
  · rw [hfail, if_pos rfl]
    exact h
  · split_ifs
    · exact hinv.drop_live rfl
    · exact hinv.reserve rfl

end HeapRun.Inv

namespace HeapRun
variable {r : HeapRun}

theorem takeTls_reserved (r : HeapRun) :
    r.takeTls.2.reserved =
      if r.takeTls.1 = 0 then r.reserved else ⟨r.takeTls.1, 0x100⟩ :: r.reserved := rfl

theorem takeTls_stackCursor (r : HeapRun) : r.takeTls.2.heap.stackCursor = r.heap.stackCursor :=
  r.heap.allocateHeap_stackCursor 0x100 64

theorem takeStack_cursor_le (r : HeapRun) (size : Word) :
    (r.takeStack size).2.heap.stackCursor.toNat ≤ r.heap.stackCursor.toNat := r.heap.allocateStack_le size

theorem mem_takeTls {block : MemoryBlock} (h : block ∈ r.reserved) : block ∈ r.takeTls.2.reserved := by
  rw [takeTls_reserved]
  split_ifs
  · exact h
  · exact List.mem_cons_of_mem _ h

theorem mem_reserved_of_step {r' : HeapRun} {call : HeapCall} (hstep : r.step call = some r')
    {block : MemoryBlock} (h : block ∈ r.reserved) : block ∈ r'.reserved := by
  cases call with
  | allocateHeap size alignment =>
    obtain ⟨-, ⟨⟩⟩ := Option.ite_none_right_eq_some.1 hstep
    exact h
  | freeHeap freed =>
    obtain ⟨-, ⟨⟩⟩ := Option.ite_none_right_eq_some.1 hstep
    exact h
  | allocateStack size =>
    obtain rfl := Option.some.inj hstep
    exact List.mem_cons_of_mem _ h

end HeapRun

namespace ThreadRun
variable {m : PlacedMemory} {r : ThreadRun}

/-- The memory behind both allocations, whether they succeed or not. -/
def taken (r : ThreadRun) (stackSize : Word) : HeapRun :=
  (r.memory.takeStack (requestedStack stackSize)).2.takeTls.2

theorem stack_spec (h : r.memory.Inv m.toConfiguredMemory) {size : Word} (hne : (r.memory.takeStack size).1 ≠ 0) :
    let rounded := (alignUp size 64).toNat
    let cursor := r.memory.heap.stackCursor.toNat
    rounded ≤ cursor ∧ r.memory.heap.heapCursor.toNat ≤ cursor ∧
      (r.memory.takeStack size).1.toNat = m.base.toNat + (cursor - rounded) ∧
      (r.memory.takeStack size).2.heap.stackCursor.toNat = cursor - rounded ∧
      (r.memory.takeStack size).2.reserved =
        ⟨(r.memory.takeStack size).1, alignUp size 64⟩ :: r.memory.reserved := by
  intro rounded cursor
  have hstack := h.stack
  have hfits := m.fits
  have hbase := h.base
  rcases r.memory.heap.allocateStack_cases size with heq | ⟨hle, hroom, heq⟩
  · exact absurd (congrArg Prod.fst heq) hne
  have hcursor : (r.memory.heap.stackCursor - alignUp size 64).toNat = cursor - rounded := by
    rw [BitVec.toNat_sub]
    omega
  have hsize : r.memory.heap.stackCursor - (r.memory.heap.stackCursor - alignUp size 64) = alignUp size 64 :=
    sub_sub_cancel _ _
  unfold HeapRun.takeStack
  rw [heq]
  refine ⟨hle, by omega, ?_, hcursor, ?_⟩
  · show (r.memory.heap.memoryBase + (r.memory.heap.stackCursor - alignUp size 64)).toNat = _
    rw [BitVec.toNat_add, hcursor, hbase]
    omega
  · show (⟨_, _⟩ : MemoryBlock) :: _ = _
    rw [hsize]

theorem Inv.base_add_ne_zero (h : r.Inv m) :
    r.memory.heap.memoryBase + r.memory.heap.stackCursor ≠ 0 := by
  intro hzero
  have hfits := m.fits
  have hstack := h.memory.stack
  have hne := m.base_ne_zero
  have hsum := congrArg BitVec.toNat hzero
  rw [h.memory.base, BitVec.toNat_add, Nat.mod_eq_of_lt (by omega)] at hsum
  refine hne (BitVec.eq_of_toNat_eq ?_)
  simp at hsum ⊢
  omega

theorem create_cases (r : ThreadRun) (stackSize : Word) :
    let stack := (r.memory.takeStack (requestedStack stackSize)).1
    let tls := (r.memory.takeStack (requestedStack stackSize)).2.takeTls.1
    (stack = 0 ∨ tls = 0 ∨ ¬ r.guestExecutor) ∧
        r.sceKernelCreateThread stackSize = ({ r with memory := r.taken stackSize }, 0x80020190) ∨
      (stack ≠ 0 ∧ tls ≠ 0 ∧ r.guestExecutor) ∧
        (r.sceKernelCreateThread stackSize).1 =
          { r with
            memory := r.taken stackSize
            threads := ⟨r.nextUid, stack, requestedStack stackSize, tls, false⟩ :: r.threads
            nextUid := r.nextUid + 1 } := by
  intro stack tls
  by_cases hfail : stack = 0 ∨ tls = 0 ∨ ¬ r.guestExecutor
  · exact .inl ⟨hfail, if_pos hfail⟩
  · refine .inr ⟨?_, congrArg Prod.fst (if_neg hfail)⟩
    rw [not_or, not_or, not_not] at hfail
    exact hfail

namespace Inv

theorem taken_cursor_le (r : ThreadRun) (stackSize : Word) :
    (r.taken stackSize).heap.stackCursor.toNat ≤ r.memory.heap.stackCursor.toNat := by
  rw [taken, HeapRun.takeTls_stackCursor]
  exact r.memory.takeStack_cursor_le _

/-- The calls keep their threads' stacks above the cursor, because it only moves down. -/
theorem with_memory (h : r.Inv m) {memory : HeapRun} (hinv : memory.Inv m.toConfiguredMemory)
    (hcursor : memory.heap.stackCursor.toNat ≤ r.memory.heap.stackCursor.toNat)
    (hreserved : ∀ block ∈ r.memory.reserved, block ∈ memory.reserved) : Inv m { r with memory } := by
  refine ⟨hinv, hcursor.trans h.cursor, fun t ht => ?_, fun t ht => hreserved _ (h.tls t ht)⟩
  have hle := h.above t ht
  show m.base.toNat + memory.heap.stackCursor.toNat ≤ _
  omega

theorem taken (h : r.Inv m) (stackSize : Word) : Inv m { r with memory := r.taken stackSize } := by
  refine h.with_memory (h.memory.takeStack _).takeTls (taken_cursor_le r stackSize) fun block hmem => ?_
  exact HeapRun.mem_takeTls (List.mem_cons_of_mem _ hmem)

theorem create (h : r.Inv m) (stackSize : Word) : (r.sceKernelCreateThread stackSize).1.Inv m := by
  have htaken := h.taken stackSize
  rcases r.create_cases stackSize with ⟨-, heq⟩ | ⟨⟨hstack, htls, -⟩, heq⟩
  · rw [heq]
    exact htaken
  obtain ⟨-, -, haddress, hcursor, -⟩ := stack_spec h.memory hstack
  rw [heq]
  refine ⟨htaken.memory, htaken.cursor, List.forall_mem_cons.2 ⟨?_, htaken.above⟩,
    List.forall_mem_cons.2 ⟨?_, htaken.tls⟩⟩
  · show m.base.toNat + (r.taken stackSize).heap.stackCursor.toNat ≤ _
    rw [ThreadRun.taken, HeapRun.takeTls_stackCursor, hcursor, haddress]
  · show _ ∈ (r.taken stackSize).reserved
    rw [ThreadRun.taken, HeapRun.takeTls_reserved, if_neg htls]
    exact List.mem_cons_self

theorem step (h : r.Inv m) {call : ThreadCall} {r' : ThreadRun} (hstep : r.step call = some r') : r'.Inv m := by
  cases call with
  | createThread stackSize =>
    obtain rfl := Option.some.inj hstep
    exact h.create stackSize
  | deleteThread uid =>
    obtain rfl := Option.some.inj hstep
    unfold sceKernelDeleteThread
    split
    · exact h
    split_ifs
    · exact h
    · exact ⟨h.memory, h.cursor, fun t ht => h.above t (List.mem_of_mem_eraseP ht),
        fun t ht => h.tls t (List.mem_of_mem_eraseP ht)⟩
  | startThread uid | joinThread uid =>
    obtain rfl := Option.some.inj hstep
    refine ⟨h.memory, h.cursor, fun t ht => ?_, fun t ht => ?_⟩
    all_goals
      obtain ⟨u, hu, rfl⟩ := List.mem_map.1 ht
    · have := h.above u hu
      split_ifs <;> exact this
    · have := h.tls u hu
      split_ifs <;> exact this
  | heap call =>
    obtain ⟨memory, hcall, rfl⟩ := Option.map_eq_some_iff.1 hstep
    refine h.with_memory (h.memory.step hcall) (HeapRun.step_stackCursor_le hcall) fun block hmem => ?_
    exact HeapRun.mem_reserved_of_step hcall hmem

end Inv
end ThreadRun

/-! ### Stacks that wrap and stacks that do not -/

/-- Nothing is cut off for a size that wraps. -/
theorem Heap.allocateStack_wraps {h : Heap} {size : Word} (hsize : ¬ size ≤ (0xffffffc0 : Word))
    (hcursor : h.heapCursor ≤ h.stackCursor) : h.allocateStack size = (h.memoryBase + h.stackCursor, h) := by
  have hzero : h.stackCursor - 0 = h.stackCursor := sub_zero _
  unfold allocateStack
  rw [alignUp_wraps hsize]
  dsimp only
  rw [hzero]
  refine if_neg (not_or.2 ⟨?_, ?_⟩)
  · rw [gt_iff_lt, BitVec.lt_def]
    exact Nat.not_lt_zero _
  · rw [BitVec.lt_def]
    exact not_lt.2 hcursor

namespace ThreadRun
variable {m : PlacedMemory} {r : ThreadRun} {stackSize : Word}

theorem requestedStack_of_wraps (h : ¬ stackSize ≤ (0xffffffc0 : Word)) : requestedStack stackSize = stackSize := by
  refine if_neg fun hlt => h ?_
  rw [BitVec.lt_def] at hlt
  rw [BitVec.le_def]
  simp at hlt ⊢
  omega

theorem requestedStack_le (h : stackSize ≤ (0xffffffc0 : Word)) :
    requestedStack stackSize ≤ (0xffffffc0 : Word) := by
  unfold requestedStack
  split_ifs
  · decide
  · exact h

theorem takeStack_wraps (hsize : ¬ stackSize ≤ (0xffffffc0 : Word))
    (hcursor : r.memory.heap.heapCursor ≤ r.memory.heap.stackCursor) :
    (r.memory.takeStack (requestedStack stackSize)).1 = r.memory.heap.memoryBase + r.memory.heap.stackCursor ∧
      (r.memory.takeStack (requestedStack stackSize)).2.heap = r.memory.heap := by
  have heq := Heap.allocateStack_wraps hsize hcursor
  unfold HeapRun.takeStack
  rw [requestedStack_of_wraps hsize, heq]
  exact ⟨rfl, rfl⟩

namespace Inv

theorem apart (h : r.Inv m) (hstack : (r.memory.takeStack (requestedStack stackSize)).1 ≠ 0)
    (htls : (r.memory.takeStack (requestedStack stackSize)).2.takeTls.1 ≠ 0)
    (hsize : stackSize ≤ (0xffffffc0 : Word)) {t : KernelThread} {r' : ThreadRun}
    (hmemory : r'.memory = r.taken stackSize)
    (haddress : t.stackAddress = (r.memory.takeStack (requestedStack stackSize)).1)
    (ht : t.stackSize = requestedStack stackSize)
    (htlsAddress : t.tlsAddress = (r.memory.takeStack (requestedStack stackSize)).2.takeTls.1) :
    r'.StackApart m t r.threads := by
  obtain ⟨hrounded, -, hat, -, hreserved⟩ := stack_spec h.memory hstack
  have hle := le_alignUp (requestedStack_le hsize)
  have hcursor := h.cursor
  set cut : MemoryBlock := ⟨t.stackAddress, alignUp (requestedStack stackSize) 64⟩ with hcut
  have hsub : t.stack ⊆ cut.range := by
    show Set.Ico _ (_ + t.stackSize.toNat) ⊆ Set.Ico _ (t.stackAddress.toNat + _)
    rw [ht]
    exact Set.Ico_subset_Ico_right (Nat.add_le_add_left hle _)
  have hall : r'.memory.reserved = t.tls :: cut :: r.memory.reserved := by
    rw [hmemory, ThreadRun.taken, HeapRun.takeTls_reserved, if_neg htls, hreserved, hcut, haddress]
    show _ = (⟨t.tlsAddress, 0x100⟩ : MemoryBlock) :: _
    rw [htlsAddress]
  -- the cut comes first, then all that the stack is to be apart from
  have hpacked : Packed m.range (cut.range :: m.image :: ((t.tls :: r.memory.reserved).map MemoryBlock.range ++
      (r'.memory.live.map MemoryBlock.range ++
        (r'.memory.heap.middle :: r'.memory.heap.freeHeapBlocks.map MemoryBlock.range)))) := by
    have htaken : r'.memory.Inv m.toConfiguredMemory := hmemory ▸ (h.memory.takeStack _).takeTls
    refine htaken.packed.perm (perm_of_count fun a => ?_)
    simp only [HeapRun.regions, hall, List.map_append, List.map_cons, List.count_cons, List.count_append]
    omega
  obtain ⟨hinside, hdisjoint, -⟩ := Packed.cons_iff.1 hpacked
  have hout : ∀ q ∈ m.image :: ((t.tls :: r.memory.reserved).map MemoryBlock.range ++
      (r'.memory.live.map MemoryBlock.range ++
        (r'.memory.heap.middle :: r'.memory.heap.freeHeapBlocks.map MemoryBlock.range))), Disjoint t.stack q :=
    fun q hq => (hdisjoint q hq).mono_left hsub
  refine ⟨hsub.trans hinside, hout _ (by simp), ?_, ?_, ?_, ?_⟩
  · intro block hblock
    refine hout _ (List.mem_cons_of_mem _ (List.mem_append_right _ (List.mem_append_left _ ?_)))
    exact List.mem_map_of_mem hblock
  · intro u hu
    refine hout _ (List.mem_cons_of_mem _ (List.mem_append_left _ (List.mem_map_of_mem ?_)))
    rcases List.mem_cons.1 hu with rfl | hu
    · exact List.mem_cons_self
    · exact List.mem_cons_of_mem _ (h.tls u hu)
  · -- the other stacks begin where this one ends, or above
    intro u hu
    have habove := h.above u hu
    refine Disjoint.mono_left hsub (Set.Ico_disjoint_Ico.2 ?_)
    show min (t.stackAddress.toNat + (alignUp _ _).toNat) _ ≤ max _ _
    rw [haddress]
    omega
  · refine Disjoint.mono_left hsub (Set.Ico_disjoint_Ico.2 ?_)
    show min (t.stackAddress.toNat + (alignUp _ _).toNat) _ ≤ max _ _
    rw [haddress]
    omega

end Inv

/-- The stack of a thread that is made with a size that wraps ends outside guest memory. -/
theorem not_inside (hsize : ¬ stackSize ≤ (0xffffffc0 : Word)) {t : KernelThread}
    (ht : t.stackSize = stackSize) : ¬ t.stack ⊆ m.range := by
  intro hsub
  have hfits := m.fits
  rw [BitVec.le_def, not_le] at hsize
  have hlt : (0xffffffc0 : Word).toNat = 0xffffffc0 := rfl
  have hpos : t.stackAddress.toNat < t.stackAddress.toNat + t.stackSize.toNat := by
    rw [ht]
    omega
  have hend := ((Set.Ico_subset_Ico_iff hpos).1 hsub).2
  rw [ht] at hend
  omega

end ThreadRun

/-- In every reachable state a call that does not wrap makes a thread whose stack is apart from all else, or
none; one that wraps fails only where no thread can be made. -/
theorem thread_stack_apart (m : PlacedMemory) (guestExecutor : Bool) (calls : List ThreadCall) (r : ThreadRun)
    (hrun : run ThreadRun.step { memory := { heap := m.heap }, guestExecutor } calls = some r)
    (stackSize : Word) :
    r.CreatesApart m stackSize ↔
      (r.guestExecutor → r.memory.heap.HasRoom → stackSize ≤ (0xffffffc0 : Word)) := by
  have h : r.Inv m := run_invariant (fun _ _ _ h hstep => h.step hstep)
    ⟨m.heap_inv, le_rfl, fun t ht => absurd ht (List.not_mem_nil), fun t ht => absurd ht (List.not_mem_nil)⟩ hrun
  unfold ThreadRun.CreatesApart
  constructor
  · rintro hapart hexecutor ⟨hcursor, hroom⟩
    by_contra hsize
    obtain ⟨haddress, hheap⟩ := ThreadRun.takeStack_wraps (r := r) hsize hcursor
    have hstack : (r.memory.takeStack (ThreadRun.requestedStack stackSize)).1 ≠ 0 := by
      rw [haddress]
      exact h.base_add_ne_zero
    have htls : (r.memory.takeStack (ThreadRun.requestedStack stackSize)).2.takeTls.1 ≠ 0 := by
      show (Heap.allocateHeap (HeapRun.heap _) 0x100 64).1 ≠ 0
      rw [hheap]
      exact hroom
    rcases r.create_cases stackSize with ⟨hfail | hfail | hfail, -⟩ | ⟨-, heq⟩
    · exact hstack hfail
    · exact htls hfail
    · exact hfail hexecutor
    dsimp only at hapart
    rw [heq] at hapart
    rcases hapart with ⟨hthreads, -⟩ | ⟨t, hthreads, hapart⟩
    · exact List.cons_ne_self _ _ hthreads
    · have ht : t.stackSize = stackSize := by
        rw [← (List.cons.inj hthreads).1]
        exact ThreadRun.requestedStack_of_wraps hsize
      exact ThreadRun.not_inside hsize ht hapart.inside
  · intro hfits
    rcases r.create_cases stackSize with ⟨-, heq⟩ | ⟨⟨hstack, htls, hexecutor⟩, heq⟩
    · rw [heq]
      exact .inl ⟨rfl, rfl⟩
    have hsize : stackSize ≤ (0xffffffc0 : Word) := by
      by_contra hsize
      refine hsize (hfits hexecutor ?_)
      have hcursor : r.memory.heap.heapCursor ≤ r.memory.heap.stackCursor :=
        (ThreadRun.stack_spec h.memory hstack).2.1
      refine ⟨hcursor, ?_⟩
      rw [← (ThreadRun.takeStack_wraps (r := r) hsize hcursor).2]
      exact htls
    refine .inr ⟨_, congrArg ThreadRun.threads heq, ?_⟩
    exact h.apart hstack htls hsize (congrArg ThreadRun.memory heq) rfl rfl rfl

def placedUserMemory : PlacedMemory where
  toConfiguredMemory := userMemory
  base_ne_zero := by decide

/-- A thread is made, runs and is deleted; the next one gets a stack below, also of the largest size. -/
theorem thread_stack_apart_placed :
    let calls : List ThreadCall := [.createThread 0x4001, .heap (.allocateHeap 0x200 64), .startThread 0x100,
      .joinThread 0x100, .deleteThread 0x100]
    ∃ r, run ThreadRun.step { memory := { heap := placedUserMemory.heap }, guestExecutor := true } calls = some r ∧
      r.CreatesApart placedUserMemory 0x8000 ∧ r.CreatesApart placedUserMemory 0xffffffc0 := by
  intro calls
  obtain ⟨r, hrun⟩ : ∃ r, run ThreadRun.step
      { memory := { heap := placedUserMemory.heap }, guestExecutor := true } calls = some r :=
    Option.isSome_iff_exists.1 (by decide)
  exact ⟨r, hrun, (thread_stack_apart placedUserMemory true calls r hrun 0x8000).2 fun _ _ => by decide,
    (thread_stack_apart placedUserMemory true calls r hrun 0xffffffc0).2 fun _ _ => by decide⟩

/-- The first thread, created with a size that wraps. -/
theorem thread_stack_outside :
    let r : ThreadRun := { memory := { heap := placedUserMemory.heap }, guestExecutor := true }
    (r.sceKernelCreateThread 0xffffffc1).1.threads = [⟨0x100, 0x09fc0000, 0xffffffc1, 0x08800000, false⟩] ∧
      ¬ r.CreatesApart placedUserMemory 0xffffffc1 := by
  intro r
  have hthreads : (r.sceKernelCreateThread 0xffffffc1).1.threads =
      [⟨0x100, 0x09fc0000, 0xffffffc1, 0x08800000, false⟩] := by
    decide
  refine ⟨hthreads, fun hcreates => ?_⟩
  unfold ThreadRun.CreatesApart at hcreates
  dsimp only at hcreates
  rcases hcreates with ⟨hsame, -⟩ | ⟨t, ht, hapart⟩
  · rw [hthreads] at hsame
    cases hsame
  · rw [hthreads] at ht
    have hsize : t.stackSize = 0xffffffc1 := by rw [← (List.cons.inj ht).1]
    exact ThreadRun.not_inside (by decide) hsize hapart.inside

end Psprism
