import Psprism.Heap

/-!
# Fixed pools (`refract/src/stubs/kernel/sceKernel*Fpl.cpp`)

A pool takes its blocks one by one from the heap and hands out the address that was put back last. Freeing
puts back any address that the guest gives, without a look at what the pool handed out: a block that is
freed twice is handed out twice, and an address that the pool never owned is handed out as a block.

`FplRun` adds to each pool the addresses that the guest holds, and to the heap the blocks of the pools.
-/

namespace Psprism
open Interleaving

/-- The back of `available` is the last element. -/
structure FixedPool where
  backing : List MemoryBlock
  available : List Word

/-- What both allocating stubs do under the lock of the pool; 0 when nothing is available. -/
def FixedPool.take (pool : FixedPool) : Word × FixedPool :=
  match pool.available.getLast? with
  | none => (0, pool)
  | some address => (address, { pool with available := pool.available.dropLast })

namespace Heap

/-- The loop of `sceKernelCreateFpl`: the blocks it gets, and whether it gets all of them. -/
def takeBlocks (h : Heap) (blockSize : Word) : Nat → Heap × List MemoryBlock × Bool
  | 0 => (h, [], true)
  | count + 1 =>
    let (address, h) := h.allocateHeap blockSize 64
    if address = 0 then (h, [], false)
    else
      let (h, blocks, complete) := h.takeBlocks blockSize count
      (h, ⟨address, blockSize⟩ :: blocks, complete)

def freeBlocks (h : Heap) (blocks : List MemoryBlock) : Heap := blocks.foldl freeHeap h

end Heap

structure FixedPoolRun where
  pool : FixedPool
  live : List Word := []

namespace FixedPoolRun

def allocate (p : FixedPoolRun) : FixedPoolRun :=
  let (address, pool) := p.pool.take
  { pool, live := if address = 0 then p.live else address :: p.live }

def free (p : FixedPoolRun) (address : Word) : FixedPoolRun where
  pool := { p.pool with available := p.pool.available ++ [address] }
  live := p.live.erase address

end FixedPoolRun

/-- `memory.live` are the blocks of other callers. -/
structure FplRun where
  memory : HeapRun
  pools : List (Int × FixedPoolRun) := []
  nextUid : Int := 0x100

/-- `gpr[2]`, where the stub sets it, and the word it stores through its pointer argument. -/
structure FplReply where
  v0 : Option Word := none
  output : Option Word := none

namespace FplRun

def modify (r : FplRun) (uid : Int) (f : FixedPoolRun → FixedPoolRun) : FplRun :=
  { r with pools := r.pools.map fun entry => if entry.1 = uid then (uid, f entry.2) else entry }

def sceKernelCreateFpl (r : FplRun) (blockSize blockCount : Word) : FplRun × FplReply :=
  if blockSize = 0 ∨ blockCount = 0 then (r, { v0 := some 0x80020190 })
  else
    let (heap, backing, complete) := r.memory.heap.takeBlocks blockSize blockCount.toNat
    if complete then
      ({ memory := { r.memory with heap }
         pools := (r.nextUid, { pool := { backing, available := backing.map (·.address) } }) :: r.pools
         nextUid := r.nextUid + 1 }, { v0 := some (BitVec.ofInt 32 r.nextUid) })
    else ({ r with memory := { r.memory with heap := heap.freeBlocks backing } }, { v0 := some 0x80020190 })

def sceKernelTryAllocateFpl (r : FplRun) (uid : Int) : FplRun × FplReply :=
  match r.pools.lookup uid with
  | none => (r, { v0 := some 0x8002013a })
  | some p =>
    let address := p.pool.take.1
    (r.modify uid (·.allocate),
      if address = 0 then { v0 := some 0x80020190 } else { v0 := some 0, output := some address })

/-- One attempt; a caller that gets no reply sleeps until the next. -/
def sceKernelAllocateFpl (r : FplRun) (uid : Int) : FplRun × Option FplReply :=
  match r.pools.lookup uid with
  | none => (r, some {})
  | some p =>
    if p.pool.available = [] then (r, none)
    else
      let address := p.pool.take.1
      (r.modify uid (·.allocate), some (if address = 0 then {} else { v0 := some 0, output := some address }))

def sceKernelFreeFpl (r : FplRun) (uid : Int) (address : Word) : FplRun × FplReply :=
  match r.pools.lookup uid with
  | none => (r, {})
  | some _ => (r.modify uid (·.free address), { v0 := some 0 })

def sceKernelDeleteFpl (r : FplRun) (uid : Int) : FplRun × FplReply :=
  match r.pools.lookup uid with
  | none => (r, { v0 := some 0x8002013a })
  | some p =>
    ({ r with
       memory := { r.memory with heap := r.memory.heap.freeBlocks p.pool.backing }
       pools := r.pools.eraseP (·.1 = uid) }, { v0 := some 0 })

end FplRun

inductive FplCall
  | create (blockSize blockCount : Word)
  | tryAllocate (uid : Int)
  | allocate (uid : Int)
  | free (uid : Int) (address : Word)
  | delete (uid : Int)
  | heap (call : HeapCall)

namespace FplRun

def step (r : FplRun) : FplCall → Option FplRun
  | .create blockSize blockCount => some (r.sceKernelCreateFpl blockSize blockCount).1
  | .tryAllocate uid => some (r.sceKernelTryAllocateFpl uid).1
  | .allocate uid => some (r.sceKernelAllocateFpl uid).1
  | .free uid address => some (r.sceKernelFreeFpl uid address).1
  | .delete uid => some (r.sceKernelDeleteFpl uid).1
  | .heap call => (r.memory.step call).map fun memory => { r with memory }

/-- The guest frees what the pool handed out and it has not freed yet. -/
def FreesLive (r : FplRun) : FplCall → Prop
  | .free uid address => ∀ p ∈ r.pools, p.1 = uid → address ∈ p.2.live
  | _ => True

instance (r : FplRun) : DecidablePred r.FreesLive
  | .free uid address => inferInstanceAs (Decidable (∀ p ∈ r.pools, p.1 = uid → address ∈ p.2.live))
  | .create _ _ | .tryAllocate _ | .allocate _ | .delete _ | .heap _ => .isTrue trivial

/-- The blocks of all pools. -/
def held (r : FplRun) : List MemoryBlock := r.pools.flatMap (·.2.pool.backing)

/-- Live allocations have blocks of their own, blocks of the pool, and the free and the live ones add up. The
blocks of all pools share no byte. -/
structure Sound (r : FplRun) : Prop where
  once : ∀ p ∈ r.pools, p.2.live.Nodup
  own : ∀ p ∈ r.pools, ∀ address ∈ p.2.live, address ∈ p.2.pool.backing.map (·.address)
  count : ∀ p ∈ r.pools, p.2.pool.available.length + p.2.live.length = p.2.pool.backing.length
  apart : r.held.Pairwise fun x y => Disjoint x.range y.range

end FplRun

/-! ### The heap under the blocks of the pools -/

namespace HeapRun

def hold (r : HeapRun) (blocks : List MemoryBlock) : HeapRun := { r with live := r.live ++ blocks }

namespace Inv
variable {m : ConfiguredMemory} {r : HeapRun} {blocks live : List MemoryBlock}

theorem perm_live (h : r.Inv m) (hp : r.live.Perm live) : Inv m { r with live } := by
  refine ⟨h.base, h.cursor, h.stack, h.nonempty, h.packed.perm ?_⟩
  exact ((((hp.append_right _).append_right _).map _).cons _).cons _

/-- The other callers neither see nor free the blocks that are held. -/
theorem step_hold (h : (r.hold blocks).Inv m) {call : HeapCall} {r' : HeapRun} (hstep : r.step call = some r') :
    (r'.hold blocks).Inv m := by
  suffices hheld : (r.hold blocks).step call = some (r'.hold blocks) from h.step hheld
  cases call with
  | allocateHeap size alignment =>
    obtain ⟨ha, hsome⟩ := Option.ite_none_right_eq_some.1 hstep
    obtain rfl := Option.some.inj hsome
    refine (if_pos ha).trans (congrArg some ?_)
    have hlive : (if (r.heap.allocateHeap size alignment).1 = 0 then r.live ++ blocks
        else ⟨(r.heap.allocateHeap size alignment).1, size⟩ :: (r.live ++ blocks)) =
          (if (r.heap.allocateHeap size alignment).1 = 0 then r.live
            else ⟨(r.heap.allocateHeap size alignment).1, size⟩ :: r.live) ++ blocks := by
      split_ifs <;> rfl
    exact congrArg (fun live => (⟨(r.heap.allocateHeap size alignment).2, live, r.reserved⟩ : HeapRun)) hlive
  | freeHeap block =>
    obtain ⟨hmem, ⟨⟩⟩ := Option.ite_none_right_eq_some.1 hstep
    refine (if_pos (List.mem_append_left _ hmem)).trans (congrArg some ?_)
    simp only [hold, List.erase_append_left _ hmem]
  | allocateStack size =>
    obtain rfl := Option.some.inj hstep
    rfl

theorem takeBlocks (h : r.Inv m) (blockSize : Word) (count : Nat) :
    Inv m { r with
      heap := (r.heap.takeBlocks blockSize count).1
      live := (r.heap.takeBlocks blockSize count).2.1 ++ r.live } := by
  induction count generalizing r with
  | zero => exact h
  | succ count ih =>
    unfold Heap.takeBlocks
    dsimp only
    rcases h.allocateHeap isAlignment_sixtyFour blockSize with hfail | hinv
    · rw [hfail, if_pos rfl]
      exact h
    split_ifs
    · exact hinv.drop_live rfl
    · exact (ih hinv).perm_live List.perm_middle

theorem freeBlocks (h : r.Inv m) (hlive : r.live = blocks ++ live) :
    Inv m { r with heap := r.heap.freeBlocks blocks, live } := by
  induction blocks generalizing r with
  | nil =>
    have hr : r = { r with live } := by rw [← show r.live = live from hlive]
    exact hr ▸ h
  | cons block blocks ih =>
    have hfree := h.freeHeap (show block ∈ r.live by rw [hlive]; exact List.mem_cons_self)
    refine ih hfree ?_
    show r.live.erase block = _
    rw [hlive, List.cons_append, List.erase_cons_head]

end Inv

end HeapRun

theorem Heap.takeBlocks_spec (h : Heap) (blockSize : Word) (count : Nat) :
    (∀ block ∈ (h.takeBlocks blockSize count).2.1, block.address ≠ 0 ∧ block.size = blockSize) ∧
      ((h.takeBlocks blockSize count).2.2 → (h.takeBlocks blockSize count).2.1.length = count) := by
  induction count generalizing h with
  | zero => exact ⟨fun block hblock => absurd hblock (List.not_mem_nil), fun _ => rfl⟩
  | succ count ih =>
    unfold takeBlocks
    dsimp only
    split_ifs with hfail
    · exact ⟨fun block hblock => absurd hblock (List.not_mem_nil), fun hfalse => absurd hfalse (by simp)⟩
    · obtain ⟨hblocks, hlength⟩ := ih (h.allocateHeap blockSize 64).2
      refine ⟨List.forall_mem_cons.2 ⟨⟨hfail, rfl⟩, hblocks⟩, fun hcomplete => ?_⟩
      rw [List.length_cons, hlength hcomplete]

/-! ### The pools -/

theorem FixedPool.take_cases (pool : FixedPool) :
    pool.available = [] ∧ pool.take = (0, pool) ∨
      ∃ front address, pool.available = front ++ [address] ∧
        pool.take = (address, { pool with available := front }) := by
  unfold take
  rcases List.eq_nil_or_concat' pool.available with hnil | ⟨front, address, hfront⟩
  · exact .inl ⟨hnil, by rw [hnil]; rfl⟩
  · refine .inr ⟨front, address, hfront, ?_⟩
    rw [hfront, List.getLast?_concat, List.dropLast_concat]

theorem FixedPoolRun.allocate_backing (p : FixedPoolRun) : p.allocate.pool.backing = p.pool.backing := by
  unfold allocate
  rcases p.pool.take_cases with ⟨-, htake⟩ | ⟨front, address, -, htake⟩ <;> rw [htake]

namespace FixedPoolRun
variable {p : FixedPoolRun}

/-- Every block is available or live, once. -/
def Kept (p : FixedPoolRun) : Prop :=
  (p.pool.available ++ p.live).Perm (p.pool.backing.map (·.address))

theorem Kept.allocate (h : p.Kept) (hne : ∀ block ∈ p.pool.backing, block.address ≠ 0) : p.allocate.Kept := by
  unfold Kept
  rw [p.allocate_backing]
  unfold FixedPoolRun.allocate
  rcases p.pool.take_cases with ⟨-, htake⟩ | ⟨front, address, hfront, htake⟩
  · rw [htake]
    exact h
  unfold Kept at h
  rw [hfront, List.append_assoc] at h
  have hmem : address ∈ p.pool.backing.map (·.address) :=
    h.mem_iff.1 (List.mem_append_right _ List.mem_cons_self)
  have haddress : address ≠ 0 := by
    obtain ⟨block, hblock, rfl⟩ := List.mem_map.1 hmem
    exact hne block hblock
  rw [htake]
  dsimp only
  rw [if_neg haddress]
  exact h

theorem Kept.free (h : p.Kept) {address : Word} (hlive : address ∈ p.live) : (p.free address).Kept := by
  have hperm : (p.pool.available ++ [address] ++ p.live.erase address).Perm (p.pool.available ++ p.live) := by
    rw [List.append_assoc]
    exact (List.perm_cons_erase hlive).symm.append_left _
  exact hperm.trans h

end FixedPoolRun

namespace FplRun
variable {m : ConfiguredMemory} {r : FplRun}

/-- What the pools keep whatever the guest frees. -/
structure Inv (m : ConfiguredMemory) (r : FplRun) : Prop where
  memory : (r.memory.hold r.held).Inv m
  blocks : ∀ p ∈ r.pools, ∀ block ∈ p.2.pool.backing, block.address ≠ 0 ∧ block.size ≠ 0

def Kept (r : FplRun) : Prop := ∀ p ∈ r.pools, p.2.Kept

theorem mem_modify {uid : Int} {f : FixedPoolRun → FixedPoolRun} {p : Int × FixedPoolRun}
    (hp : p ∈ (r.modify uid f).pools) : p ∈ r.pools ∨ ∃ q ∈ r.pools, q.1 = uid ∧ p = (uid, f q.2) := by
  obtain ⟨q, hq, rfl⟩ := List.mem_map.1 hp
  split_ifs with huid
  · exact .inr ⟨q, hq, huid, rfl⟩
  · exact .inl hq

theorem held_modify (uid : Int) {f : FixedPoolRun → FixedPoolRun}
    (hf : ∀ p, (f p).pool.backing = p.pool.backing) : (r.modify uid f).held = r.held := by
  unfold held modify
  dsimp only
  rw [List.flatMap_map]
  congr 1
  funext entry
  split_ifs
  · exact hf entry.2
  · rfl

namespace Inv

theorem modify (h : r.Inv m) (uid : Int) {f : FixedPoolRun → FixedPoolRun}
    (hf : ∀ p, (f p).pool.backing = p.pool.backing) : (r.modify uid f).Inv m := by
  refine ⟨?_, fun p hp block hblock => ?_⟩
  · rw [held_modify uid hf]
    exact h.memory
  · rcases mem_modify hp with hp | ⟨q, hq, -, rfl⟩
    · exact h.blocks p hp block hblock
    · exact h.blocks q hq block (hf q.2 ▸ hblock)

theorem create (h : r.Inv m) (blockSize blockCount : Word) : (r.sceKernelCreateFpl blockSize blockCount).1.Inv m := by
  unfold sceKernelCreateFpl
  by_cases hzero : blockSize = 0 ∨ blockCount = 0
  · rw [if_pos hzero]
    exact h
  rw [if_neg hzero]
  have htaken := h.memory.takeBlocks blockSize blockCount.toNat
  have hspec := r.memory.heap.takeBlocks_spec blockSize blockCount.toNat
  dsimp only
  split_ifs
  · refine ⟨htaken.perm_live ?_, List.forall_mem_cons.2 ⟨fun block hblock => ?_, h.blocks⟩⟩
    · exact List.perm_append_comm_assoc _ _ _
    · obtain ⟨haddress, hsize⟩ := hspec.1 block hblock
      exact ⟨haddress, hsize ▸ (not_or.1 hzero).1⟩
  · exact ⟨htaken.freeBlocks rfl, h.blocks⟩

theorem delete (h : r.Inv m) (uid : Int) : (r.sceKernelDeleteFpl uid).1.Inv m := by
  unfold sceKernelDeleteFpl
  cases hlookup : r.pools.lookup uid with
  | none => exact h
  | some p =>
    obtain ⟨pre, post, hpools, hpre⟩ := List.lookup_eq_some_iff.1 hlookup
    have hne : ∀ q ∈ pre, ¬ decide (q.1 = uid) := by
      intro q hq
      rw [decide_eq_true_eq]
      exact fun heq => (bne_iff_ne.1 (hpre q hq)) heq.symm
    have herase : r.pools.eraseP (·.1 = uid) = pre ++ post := by
      rw [hpools, List.eraseP_append_right _ hne, List.eraseP_cons_of_pos (by simp)]
    have hheld : r.held.Perm (p.pool.backing ++ (pre ++ post).flatMap (·.2.pool.backing)) := by
      unfold held
      rw [hpools, List.flatMap_append, List.flatMap_cons, List.flatMap_append]
      exact List.perm_append_comm_assoc _ _ _
    refine ⟨?_, fun q hq => h.blocks q (List.mem_of_mem_eraseP hq)⟩
    have hmoved := h.memory.perm_live
      ((hheld.append_left r.memory.live).trans (List.perm_append_comm_assoc _ _ _))
    have hfreed := hmoved.freeBlocks rfl
    unfold held
    dsimp only
    rw [herase]
    exact hfreed

theorem step (h : r.Inv m) {call : FplCall} {r' : FplRun} (hstep : r.step call = some r') : r'.Inv m := by
  cases call with
  | create blockSize blockCount =>
    obtain rfl := Option.some.inj hstep
    exact h.create blockSize blockCount
  | tryAllocate uid =>
    obtain rfl := Option.some.inj hstep
    unfold sceKernelTryAllocateFpl
    split
    · exact h
    · exact h.modify uid FixedPoolRun.allocate_backing
  | allocate uid =>
    obtain rfl := Option.some.inj hstep
    unfold sceKernelAllocateFpl
    split
    · exact h
    split_ifs
    · exact h
    · exact h.modify uid FixedPoolRun.allocate_backing
  | free uid address =>
    obtain rfl := Option.some.inj hstep
    unfold sceKernelFreeFpl
    split
    · exact h
    · exact h.modify (f := (·.free address)) uid fun _ => rfl
  | delete uid =>
    obtain rfl := Option.some.inj hstep
    exact h.delete uid
  | heap call =>
    obtain ⟨memory, hcall, rfl⟩ := Option.map_eq_some_iff.1 hstep
    exact ⟨h.memory.step_hold hcall, h.blocks⟩

end Inv

namespace Kept

theorem allocate (h : r.Kept) (hinv : r.Inv m) (uid : Int) : (r.modify uid (·.allocate)).Kept := by
  intro p hp
  rcases mem_modify hp with hp | ⟨q, hq, -, rfl⟩
  · exact h p hp
  · exact (h q hq).allocate fun block hblock => (hinv.blocks q hq block hblock).1

theorem step (h : r.Kept) (hinv : r.Inv m) {call : FplCall} (hcall : r.FreesLive call) {r' : FplRun}
    (hstep : r.step call = some r') : r'.Kept := by
  cases call with
  | create blockSize blockCount =>
    obtain rfl := Option.some.inj hstep
    unfold sceKernelCreateFpl
    by_cases hzero : blockSize = 0 ∨ blockCount = 0
    · rw [if_pos hzero]
      exact h
    rw [if_neg hzero]
    dsimp only
    split_ifs
    · refine List.forall_mem_cons.2 ⟨?_, h⟩
      show (_ ++ []).Perm _
      rw [List.append_nil]
    · exact h
  | tryAllocate uid =>
    obtain rfl := Option.some.inj hstep
    unfold sceKernelTryAllocateFpl
    split
    · exact h
    · exact h.allocate hinv uid
  | allocate uid =>
    obtain rfl := Option.some.inj hstep
    unfold sceKernelAllocateFpl
    split
    · exact h
    split_ifs
    · exact h
    · exact h.allocate hinv uid
  | free uid address =>
    obtain rfl := Option.some.inj hstep
    unfold sceKernelFreeFpl
    split
    · exact h
    · intro p hp
      rcases mem_modify hp with hp | ⟨q, hq, huid, rfl⟩
      · exact h p hp
      · exact (h q hq).free (hcall q hq huid)
  | delete uid =>
    obtain rfl := Option.some.inj hstep
    unfold sceKernelDeleteFpl
    split
    · exact h
    · exact fun p hp => h p (List.mem_of_mem_eraseP hp)
  | heap call =>
    obtain ⟨memory, -, rfl⟩ := Option.map_eq_some_iff.1 hstep
    exact h

end Kept

theorem Inv.apart (h : r.Inv m) : r.held.Pairwise fun x y => Disjoint x.range y.range := by
  have hregions := h.memory.packed.disjoint
  rw [HeapRun.regions, List.map_append, List.map_append] at hregions
  have hlive := (List.pairwise_append.1 (List.pairwise_append.1 hregions.tail.tail).1).1
  exact (List.pairwise_append.1 (List.pairwise_map.1 hlive)).2.1

/-- Blocks that share no byte and are not empty have addresses of their own. -/
theorem Inv.addresses_nodup (h : r.Inv m) {p : Int × FixedPoolRun} (hp : p ∈ r.pools) :
    (p.2.pool.backing.map (·.address)).Nodup := by
  have hapart : p.2.pool.backing.Pairwise fun x y => Disjoint x.range y.range :=
    (List.pairwise_flatMap.1 h.apart).1 p hp
  refine List.pairwise_map.2 (hapart.imp_of_mem fun {x y} hx hy hdisjoint heq => ?_)
  have hpos : ∀ block ∈ p.2.pool.backing, 0 < block.size.toNat := by
    intro block hblock
    exact Nat.pos_of_ne_zero fun hzero => (h.blocks p hp block hblock).2 (BitVec.eq_of_toNat_eq hzero)
  have hle := Set.Ico_disjoint_Ico.1 hdisjoint
  have hx := hpos x hx
  have hy := hpos y hy
  rw [heq] at hle
  omega

theorem Kept.sound (hkept : r.Kept) (h : r.Inv m) : r.Sound := by
  refine ⟨fun p hp => ?_, fun p hp address hlive => ?_, fun p hp => ?_, h.apart⟩
  · exact (((hkept p hp).nodup_iff.2 (h.addresses_nodup hp)).of_append_right)
  · exact (hkept p hp).mem_iff.1 (List.mem_append_right _ hlive)
  · have hlength := (hkept p hp).length_eq
    rw [List.length_append, List.length_map] at hlength
    exact hlength

/-- Freeing an address that is not live makes the counts differ. -/
theorem freesLive_of_count {call : FplCall} {r' : FplRun}
    (h : ∀ p ∈ r.pools, p.2.pool.available.length + p.2.live.length = p.2.pool.backing.length)
    (h' : ∀ p ∈ r'.pools, p.2.pool.available.length + p.2.live.length = p.2.pool.backing.length)
    (hstep : r.step call = some r') : r.FreesLive call := by
  cases call with
  | free uid address =>
    obtain rfl := Option.some.inj hstep
    intro p hp huid
    have hcount := h p hp
    unfold sceKernelFreeFpl at h'
    cases hlookup : r.pools.lookup uid with
    | none =>
      have hne := List.lookup_eq_none_iff.1 hlookup p hp
      exact absurd huid.symm (bne_iff_ne.1 hne)
    | some q =>
      rw [hlookup] at h'
      have hmem : (uid, p.2.free address) ∈ (r.modify uid (·.free address)).pools :=
        List.mem_map.2 ⟨p, hp, if_pos huid⟩
      have hfreed : (p.2.pool.available ++ [address]).length + (p.2.live.erase address).length =
          p.2.pool.backing.length := h' _ hmem
      by_contra hlive
      rw [List.erase_of_not_mem hlive, List.length_append] at hfreed
      simp at hfreed
      omega
  | _ => trivial

end FplRun

/-- The pools are sound all along exactly when the guest only frees what it holds. -/
theorem fixed_pools_sound (m : ConfiguredMemory) (calls : List FplCall) (r : FplRun)
    (hrun : run FplRun.step { memory := { heap := m.heap } } calls = some r) :
    (∀ pre t, pre <+: calls → run FplRun.step { memory := { heap := m.heap } } pre = some t → t.Sound) ↔
      Guarded FplRun.step FplRun.FreesLive { memory := { heap := m.heap } } calls := by
  have hstart : FplRun.Inv m { memory := { heap := m.heap } } := ⟨m.heap_inv, by simp⟩
  have hkept : FplRun.Kept { memory := { heap := m.heap } } := fun p hp => absurd hp (List.not_mem_nil)
  constructor
  · intro hsound
    refine (guarded_iff hrun).2 fun pre call t hpre ht => ?_
    obtain ⟨rest, rfl⟩ := hpre
    obtain ⟨t', ht', -⟩ := run_append_eq_some.1 hrun
    obtain ⟨u, hu, hstep⟩ := run_append_eq_some.1 ht'
    obtain rfl := Option.some.inj (ht.symm.trans hu)
    obtain ⟨v, hstep, ⟨⟩⟩ := run_cons_eq_some.1 hstep
    have hbefore := hsound pre t ⟨[call] ++ rest, by rw [List.append_assoc]⟩ ht
    have hafter := hsound (pre ++ [call]) t' ⟨rest, rfl⟩ ht'
    exact FplRun.freesLive_of_count hbefore.count hafter.count hstep
  · rintro hguarded pre t ⟨rest, rfl⟩ ht
    have hpre : Guarded FplRun.step FplRun.FreesLive { memory := { heap := m.heap } } pre :=
      hguarded.append_left
    obtain ⟨hinv, hkept⟩ := run_guarded (P := fun r => r.Inv m ∧ r.Kept)
      (fun s call s' h hcall hstep => ⟨h.1.step hstep, h.2.step h.1 hcall hstep⟩) ⟨hstart, hkept⟩ hpre ht
    exact hkept.sound hinv

/-- Two blocks, both handed out, one freed and handed out again. -/
theorem fixed_pools_sound_reused :
    let calls : List FplCall := [.create 0x20 2, .allocate 0x100, .tryAllocate 0x100, .free 0x100 0x08800040,
      .allocate 0x100]
    ∃ r, run FplRun.step { memory := { heap := userMemory.heap } } calls = some r ∧
      (r.pools.map (·.2.live)) = [[0x08800040, 0x08800000]] ∧ r.Sound := by
  intro calls
  obtain ⟨r, hrun⟩ : ∃ r, run FplRun.step { memory := { heap := userMemory.heap } } calls = some r :=
    Option.isSome_iff_exists.1 (by decide)
  have hvalues : (run FplRun.step { memory := { heap := userMemory.heap } } calls).map
      (fun r => r.pools.map (·.2.live)) = some [[0x08800040, 0x08800000]] := by
    decide
  have hguarded : Guarded FplRun.step FplRun.FreesLive { memory := { heap := userMemory.heap } } calls := by
    decide
  rw [hrun] at hvalues
  exact ⟨r, hrun, Option.some.inj hvalues,
    (fixed_pools_sound userMemory calls r hrun).2 hguarded calls r (List.prefix_refl _) hrun⟩

/-- A block that is freed twice is handed out twice. -/
theorem fixed_pools_unsound :
    let calls : List FplCall := [.create 0x20 2, .allocate 0x100, .free 0x100 0x08800040,
      .free 0x100 0x08800040, .allocate 0x100, .allocate 0x100]
    ∃ r, run FplRun.step { memory := { heap := userMemory.heap } } calls = some r ∧ ¬ r.Sound := by
  intro calls
  obtain ⟨r, hrun⟩ : ∃ r, run FplRun.step { memory := { heap := userMemory.heap } } calls = some r :=
    Option.isSome_iff_exists.1 (by decide)
  have hvalues : (run FplRun.step { memory := { heap := userMemory.heap } } calls).map
      (fun r => r.pools.map (·.2.live)) = some [[0x08800040, 0x08800040]] := by
    decide
  rw [hrun] at hvalues
  refine ⟨r, hrun, fun hsound => ?_⟩
  have hpools : r.pools.map (·.2.live) = [[0x08800040, 0x08800040]] := Option.some.inj hvalues
  obtain ⟨p, hp, hlive⟩ := List.mem_map.1 (hpools ▸ List.mem_cons_self)
  have honce := hsound.once p hp
  rw [hlive] at honce
  exact absurd honce (by decide)

end Psprism
