import Psprism.Heap

/-!
# Variable pools (`refract/src/stubs/kernel/sceKernel*Vpl.cpp`)

A pool hands out fronts of its available blocks, the first that is large enough, and remembers the size
under the address; freeing puts the block back between its neighbours. Sizes are rounded up to 8, so a
size of zero, or one that wraps, asks for nothing: such a call gets the front of a block that stays
available.

`PoolRun` adds the blocks that the guest holds, with the sizes it asked for. When no such size finds an
available block, these blocks and the available ones tile the pool.
-/

namespace Psprism
open Interleaving

/-- `available` is the vector, `allocated` the map from addresses to sizes. -/
structure VariablePool where
  backing : MemoryBlock
  available : List MemoryBlock
  allocated : List MemoryBlock := []

/-- The loop of the stubs' `allocate`: the first block of the size loses its front. -/
def takeFront (requested : Word) : List MemoryBlock → Option (Word × List MemoryBlock)
  | [] => none
  | i :: rest =>
    if i.size < requested then (takeFront requested rest).map fun (address, rest) => (address, i :: rest)
    else
      let left : MemoryBlock := ⟨i.address + requested, i.size - requested⟩
      some (i.address, if left.size = 0 then rest else left :: rest)

namespace VariablePool

/-- `allocate` of the stubs; `emplace` keeps an entry that is there. -/
def allocate (pool : VariablePool) (requested : Word) : Word × VariablePool :=
  match takeFront requested pool.available with
  | none => (0, pool)
  | some (address, available) =>
    (address, { pool with
      available
      allocated := if pool.allocated.any (·.address = address) then pool.allocated
        else ⟨address, requested⟩ :: pool.allocated })

/-- The locked part of `sceKernelFreeVpl`. -/
def free (pool : VariablePool) (address : Word) : Option VariablePool :=
  (pool.allocated.find? (·.address = address)).map fun allocation =>
    { pool with
      available := putBack pool.available allocation
      allocated := pool.allocated.eraseP (·.address = address) }

end VariablePool

/-- No common byte, and not the same address either. -/
def MemoryBlock.Apart (x y : MemoryBlock) : Prop := x.address ≠ y.address ∧ Disjoint x.range y.range

structure PoolRun where
  pool : VariablePool
  live : List MemoryBlock := []

namespace PoolRun

def allocate (r : PoolRun) (size : Word) : Word × PoolRun :=
  let (address, pool) := r.pool.allocate (alignUp size 8)
  (address, { pool, live := if address = 0 then r.live else ⟨address, size⟩ :: r.live })

def free (r : PoolRun) (address : Word) : Option PoolRun :=
  (r.pool.free address).map fun pool => { pool, live := r.live.eraseP (·.address = address) }

end PoolRun

structure VplRun where
  memory : HeapRun
  pools : List (Int × PoolRun) := []
  nextUid : Int := 0x100

/-- `gpr[2]`, where the stub sets it, and the word it stores through its pointer argument. -/
structure VplReply where
  v0 : Option Word := none
  output : Option Word := none

namespace VplRun

def update (r : VplRun) (uid : Int) (p : PoolRun) : VplRun :=
  { r with pools := r.pools.map fun entry => if entry.1 = uid then (uid, p) else entry }

def sceKernelCreateVpl (r : VplRun) (size : Word) : VplRun × VplReply :=
  if size = 0 then (r, { v0 := some 0x80020190 })
  else
    let (address, heap) := r.memory.heap.allocateHeap size 8
    if address = 0 then ({ r with memory := { r.memory with heap } }, { v0 := some 0x80020190 })
    else
      let block := ⟨address, size⟩
      ({ memory := { r.memory with heap, live := block :: r.memory.live }
         pools := (r.nextUid, { pool := { backing := block, available := [block] } }) :: r.pools
         nextUid := r.nextUid + 1 }, { v0 := some (BitVec.ofInt 32 r.nextUid) })

def sceKernelTryAllocateVpl (r : VplRun) (uid : Int) (size : Word) : VplRun × VplReply :=
  match r.pools.lookup uid with
  | none => (r, {})
  | some p =>
    let (address, p) := p.allocate size
    (r.update uid p, if address = 0 then { v0 := some 0x80020190 } else { v0 := some 0, output := some address })

/-- One attempt; a caller that gets no reply sleeps until the next. -/
def sceKernelAllocateVpl (r : VplRun) (uid : Int) (size : Word) : VplRun × Option VplReply :=
  match r.pools.lookup uid with
  | none => (r, some {})
  | some p =>
    let (address, p) := p.allocate size
    (r.update uid p, if address = 0 then none else some { v0 := some 0, output := some address })

def sceKernelFreeVpl (r : VplRun) (uid : Int) (address : Word) : VplRun × VplReply :=
  match (r.pools.lookup uid).bind (·.free address) with
  | none => (r, {})
  | some p => (r.update uid p, { v0 := some 0 })

end VplRun

inductive VplCall
  | create (size : Word)
  | tryAllocate (uid : Int) (size : Word)
  | allocate (uid : Int) (size : Word)
  | free (uid : Int) (address : Word)

namespace VplRun

def step (r : VplRun) : VplCall → Option VplRun
  | .create size => some (r.sceKernelCreateVpl size).1
  | .tryAllocate uid size => some (r.sceKernelTryAllocateVpl uid size).1
  | .allocate uid size => some (r.sceKernelAllocateVpl uid size).1
  | .free uid address => some (r.sceKernelFreeVpl uid address).1

/-- No size that rounds to zero meets an available block. -/
def AsksForSome (r : VplRun) : VplCall → Prop
  | .tryAllocate uid size | .allocate uid size =>
    ∀ p, r.pools.lookup uid = some p → alignUp size 8 = 0 → p.pool.available = []
  | _ => True

/-- The lists tile each pool, live blocks are as large as asked for and apart, and a pool without live
blocks has all of its region available. -/
structure Sound (r : VplRun) : Prop where
  tiles : ∀ p ∈ r.pools, Tiles p.2.pool.backing.range
    ((p.2.pool.available ++ p.2.pool.allocated).map MemoryBlock.range)
  allocated : ∀ p ∈ r.pools, ∀ block ∈ p.2.live, ∃ b ∈ p.2.pool.allocated,
    b.address = block.address ∧ block.size ≤ b.size ∧ b.range ⊆ p.2.pool.backing.range
  apart : (r.pools.flatMap (·.2.live)).Pairwise MemoryBlock.Apart
  restores : ∀ p ∈ r.pools, p.2.live = [] → p.2.pool.available = [p.2.pool.backing]

end VplRun

/-! ### Blocks in order -/

/-- `b` begins behind the end of `a`, and not right there. -/
def MemoryBlock.Before (a b : MemoryBlock) : Prop := a.address.toNat + a.size.toNat < b.address.toNat

theorem mergeAdjacent_before {previous : MemoryBlock} {blocks : List MemoryBlock}
    (hb : ∀ b ∈ previous :: blocks, b.Bounded)
    (h : (previous :: blocks).Pairwise fun a b => a.address.toNat + a.size.toNat ≤ b.address.toNat) :
    (mergeAdjacent previous blocks).Pairwise MemoryBlock.Before := by
  induction blocks generalizing previous with
  | nil => exact List.pairwise_singleton _ _
  | cons current rest ih =>
    obtain ⟨hprevious, hpairwise⟩ := List.pairwise_cons.1 h
    obtain ⟨hcurrent, hrest⟩ := List.pairwise_cons.1 hpairwise
    have hp : previous.address.toNat + previous.size.toNat < 2 ^ 32 := hb previous (by simp)
    have hc : current.Bounded := hb current (by simp)
    have hle := hprevious current (by simp)
    unfold mergeAdjacent
    split_ifs with hadjacent
    · obtain ⟨hbounded, -, -⟩ := MemoryBlock.range_join hp hc hadjacent
      have haddress := congrArg BitVec.toNat hadjacent
      rw [BitVec.toNat_add, Nat.mod_eq_of_lt hp] at haddress
      refine ih (List.forall_mem_cons.2 ⟨hbounded, fun b hmem => hb b (by simp [hmem])⟩) ?_
      refine List.pairwise_cons.2 ⟨fun b hmem => ?_, hrest⟩
      have := hcurrent b hmem
      have hsize := BitVec.toNat_add previous.size current.size
      dsimp only
      omega
    · refine List.pairwise_cons.2 ⟨?_, ih (List.forall_mem_cons.2 ⟨hc, fun b hmem => hb b (by simp [hmem])⟩)
        hpairwise⟩
      have hlt : previous.address.toNat + previous.size.toNat < current.address.toNat := by
        refine lt_of_le_of_ne hle fun heq => hadjacent (BitVec.eq_of_toNat_eq ?_)
        rw [BitVec.toNat_add, Nat.mod_eq_of_lt hp]
        exact heq
      refine mergeAdjacent_forall (Q := previous.Before) (fun _ _ h _ _ => h) ?_
      refine List.forall_mem_cons.2 ⟨hlt, fun b hmem => ?_⟩
      have := hcurrent b hmem
      show _ < _
      omega

/-- Blocks that are sorted and apart lie one behind the other. -/
theorem MemoryBlock.le_of_disjoint {a b : MemoryBlock} (ha : a.size ≠ 0) (hb : b.size ≠ 0)
    (hle : a.address ≤ b.address) (hd : Disjoint a.range b.range) :
    a.address.toNat + a.size.toNat ≤ b.address.toNat := by
  have hpos : ∀ {w : Word}, w ≠ 0 → 0 < w.toNat := by
    intro w hw
    exact Nat.pos_of_ne_zero fun hzero => hw (BitVec.eq_of_toNat_eq hzero)
  have ha := hpos ha
  have hb := hpos hb
  have hd := Set.Ico_disjoint_Ico.1 hd
  rw [BitVec.le_def] at hle
  omega

theorem putBack_before {blocks : List MemoryBlock} {block : MemoryBlock}
    (hb : ∀ b ∈ block :: blocks, b.Bounded ∧ b.size ≠ 0)
    (hd : ((block :: blocks).map MemoryBlock.range).Pairwise Disjoint) :
    (putBack blocks block).Pairwise MemoryBlock.Before := by
  obtain ⟨first, rest, hperm, hsorted, hput⟩ := putBack_cases blocks block
  have hmem : ∀ b ∈ first :: rest, b.Bounded ∧ b.size ≠ 0 := fun b h => hb b (hperm.mem_iff.1 h)
  have hdisjoint : (first :: rest).Pairwise fun a b => Disjoint a.range b.range :=
    List.pairwise_map.1 (hd.perm (hperm.symm.map _) fun h => h.symm)
  rw [hput]
  refine mergeAdjacent_before (fun b h => (hmem b h).1) ?_
  refine List.Pairwise.imp_of_mem ?_ (hsorted.and hdisjoint)
  rintro a b ha hb ⟨hle, hd⟩
  exact MemoryBlock.le_of_disjoint (hmem a ha).2 (hmem b hb).2 hle hd

/-! ### One pool -/

theorem takeFront_eq_none {requested : Word} {blocks : List MemoryBlock} :
    takeFront requested blocks = none ↔ ∀ b ∈ blocks, b.size < requested := by
  induction blocks with
  | nil => simp [takeFront]
  | cons i rest ih =>
    rw [takeFront, List.forall_mem_cons]
    split_ifs with hlt
    · rw [Option.map_eq_none_iff, ih]
      simp [hlt]
    · simp [hlt]

/-- What stays available of a block that loses its front. -/
def MemoryBlock.dropFront (i : MemoryBlock) (requested : Word) : List MemoryBlock :=
  if i.size - requested = 0 then [] else [⟨i.address + requested, i.size - requested⟩]

theorem takeFront_cases {requested address : Word} {blocks blocks' : List MemoryBlock}
    (h : takeFront requested blocks = some (address, blocks')) :
    ∃ pre i post, blocks = pre ++ i :: post ∧ (∀ b ∈ pre, b.size < requested) ∧ ¬ i.size < requested ∧
      address = i.address ∧ blocks' = pre ++ (i.dropFront requested ++ post) := by
  induction blocks generalizing address blocks' with
  | nil => cases h
  | cons i rest ih =>
    rw [takeFront] at h
    by_cases hlt : i.size < requested
    · rw [if_pos hlt] at h
      obtain ⟨⟨address', rest'⟩, hrest, heq⟩ := Option.map_eq_some_iff.1 h
      obtain ⟨rfl, rfl⟩ := Prod.mk.inj heq
      obtain ⟨pre, j, post, rfl, hpre, hj, haddress, rfl⟩ := ih hrest
      exact ⟨i :: pre, j, post, rfl, List.forall_mem_cons.2 ⟨hlt, hpre⟩, hj, haddress, rfl⟩
    · rw [if_neg hlt] at h
      obtain ⟨rfl, rfl⟩ := Prod.mk.inj (Option.some.inj h)
      refine ⟨[], i, rest, rfl, by simp, hlt, rfl, ?_⟩
      rw [MemoryBlock.dropFront, List.nil_append]
      split_ifs <;> rfl

namespace MemoryBlock
variable {i : MemoryBlock} {requested : Word}

theorem dropFront_mem (hi : i.Bounded) (hle : requested.toNat ≤ i.size.toNat) {b : MemoryBlock}
    (hb : b ∈ i.dropFront requested) :
    b.size ≠ 0 ∧ b.address.toNat = i.address.toNat + requested.toNat ∧
      b.size.toNat = i.size.toNat - requested.toNat := by
  have hbounded : i.address.toNat + i.size.toNat < 2 ^ 32 := hi
  unfold dropFront at hb
  split_ifs at hb with hzero
  · simp at hb
  · rw [List.mem_singleton.1 hb]
    refine ⟨hzero, ?_, ?_⟩
    · rw [BitVec.toNat_add]
      omega
    · rw [BitVec.toNat_sub]
      omega

/-- What is left of a block takes its place in the order. -/
theorem before_dropFront {pre post : List MemoryBlock} (hi : i.Bounded) (hle : requested.toNat ≤ i.size.toNat)
    (h : (pre ++ i :: post).Pairwise Before) : (pre ++ (i.dropFront requested ++ post)).Pairwise Before := by
  rw [List.pairwise_append, List.pairwise_cons] at h
  obtain ⟨hpre, ⟨hipost, hpost⟩, hcross⟩ := h
  rw [List.pairwise_append, List.pairwise_append]
  refine ⟨hpre, ⟨?_, hpost, ?_⟩, ?_⟩
  · unfold dropFront
    split_ifs <;> simp
  · intro a ha b hb
    obtain ⟨-, haddress, hsize⟩ := dropFront_mem hi hle ha
    have : i.address.toNat + i.size.toNat < b.address.toNat := hipost b hb
    show _ < _
    omega
  · intro a ha b hb
    rcases List.mem_append.1 hb with hb | hb
    · obtain ⟨-, haddress, -⟩ := dropFront_mem hi hle hb
      have : a.address.toNat + a.size.toNat < i.address.toNat := hcross a ha i (by simp)
      show _ < _
      omega
    · exact hcross a ha b (by simp [hb])

theorem tiles_dropFront (hi : i.Bounded) (hle : requested.toNat ≤ i.size.toNat) {whole : Set Nat}
    {parts : List (Set Nat)} (h : Tiles whole (i.range :: parts)) :
    Tiles whole (range ⟨i.address, requested⟩ :: ((i.dropFront requested).map range ++ parts)) := by
  have hbounded : i.address.toNat + i.size.toNat < 2 ^ 32 := hi
  let back := Set.Ico (i.address.toNat + requested.toNat) (i.address.toNat + i.size.toNat)
  have hsplit : Tiles whole (range ⟨i.address, requested⟩ :: back :: parts) :=
    h.split (Set.Ico_disjoint_Ico.2 (by dsimp only; omega)) (Set.Ico_union_Ico_eq_Ico (by dsimp only; omega) (by
      dsimp only; omega))
  have hsub : (i.size - requested).toNat = i.size.toNat - requested.toNat := by
    rw [BitVec.toNat_sub]
    omega
  unfold dropFront
  split_ifs with hzero
  · have hempty : back = ∅ := by
      have := congrArg BitVec.toNat hzero
      rw [hsub] at this
      exact Set.Ico_eq_empty (by simp at this; omega)
    rw [hempty] at hsplit
    exact (hsplit.perm (List.Perm.swap _ _ _)).of_empty_cons
  · have hne : i.size.toNat - requested.toNat ≠ 0 := fun heq => hzero (BitVec.eq_of_toNat_eq (hsub.trans heq))
    have hback : range ⟨i.address + requested, i.size - requested⟩ = back := by
      rw [range_mk, hsub, BitVec.toNat_add, Nat.mod_eq_of_lt (by omega)]
      congr 1
      omega
    rw [List.map_singleton, hback]
    exact hsplit

end MemoryBlock

/-- A rounded size that is not zero is at least the size. -/
theorem le_alignUp_eight {size : Word} (h : alignUp size 8 ≠ 0) : size.toNat ≤ (alignUp size 8).toNat := by
  have hx := toNat_alignUp (show (8 : Word).toNat = 2 ^ 3 from rfl) size
  by_contra hlt
  have hsize := size.isLt
  have hsum : (size + (8 : Word) - 1).toNat = (size.toNat + 7) % 2 ^ 32 := by
    rw [BitVec.toNat_sub, BitVec.toNat_add]
    simp
    omega
  have hzero : (alignUp size 8).toNat = 0 := by omega
  exact h (BitVec.eq_of_toNat_eq hzero)

theorem exists_of_forall₂ {α β : Type*} {R : α → β → Prop} {l : List α} {l' : List β}
    (h : List.Forall₂ R l l') {a : α} (ha : a ∈ l) : ∃ b ∈ l', R a b := by
  induction h with
  | nil => cases ha
  | @cons a' b l l' hab _ ih =>
    rcases List.mem_cons.1 ha with rfl | ha
    · exact ⟨b, by simp, hab⟩
    · obtain ⟨c, hc, hac⟩ := ih ha
      exact ⟨c, by simp [hc], hac⟩

theorem pairwise_of_forall₂ {α β : Type*} {R : α → β → Prop} {S : α → α → Prop} {T : β → β → Prop}
    {l : List α} {l' : List β} (h : List.Forall₂ R l l')
    (hST : ∀ a b a' b', R a b → R a' b' → T b b' → S a a') (hT : l'.Pairwise T) : l.Pairwise S := by
  induction h with
  | nil => exact .nil
  | @cons a b l l' hab h ih =>
    obtain ⟨hb, hT⟩ := List.pairwise_cons.1 hT
    refine List.pairwise_cons.2 ⟨fun a' ha' => ?_, ih hT⟩
    obtain ⟨b', hb', hab'⟩ := exists_of_forall₂ h ha'
    exact hST a b a' b' hab hab' (hb b' hb')

theorem forall₂_eraseP {α β : Type*} {R : α → β → Prop} {l : List α} {l' : List β} {p : α → Bool}
    {q : β → Bool} (h : List.Forall₂ R l l') (hpq : ∀ a b, R a b → p a = q b) :
    List.Forall₂ R (l.eraseP p) (l'.eraseP q) := by
  induction h with
  | nil => exact .nil
  | @cons a b l l' hab h ih =>
    rw [List.eraseP_cons, List.eraseP_cons, hpq a b hab]
    cases q b with
    | true => exact h
    | false => exact .cons hab ih

namespace PoolRun

/-- A block the guest holds and the pool's entry for it. -/
def Entry (block entry : MemoryBlock) : Prop := block.address = entry.address ∧ block.size ≤ entry.size

theorem Entry.range_subset {block entry : MemoryBlock} (h : Entry block entry) : block.range ⊆ entry.range := by
  have hle : block.size.toNat ≤ entry.size.toNat := h.2
  unfold MemoryBlock.range
  rw [h.1]
  exact Set.Ico_subset_Ico_right (by omega)

theorem Entry.apart {x y b c : MemoryBlock} (hx : Entry x b) (hy : Entry y c) (hb : 0 < b.size.toNat)
    (hc : 0 < c.size.toNat) (h : Disjoint b.range c.range) : x.Apart y := by
  refine ⟨fun heq => ?_, h.mono hx.range_subset hy.range_subset⟩
  have haddress : b.address = c.address := hx.1.symm.trans (heq.trans hy.1)
  have := Set.Ico_disjoint_Ico.1 h
  rw [haddress] at this
  omega

structure Inv (r : PoolRun) : Prop where
  address : r.pool.backing.address ≠ 0
  size : r.pool.backing.size ≠ 0
  bounded : r.pool.backing.Bounded
  nonempty : ∀ b ∈ r.pool.available ++ r.pool.allocated, b.size ≠ 0
  tiles : Tiles r.pool.backing.range ((r.pool.available ++ r.pool.allocated).map MemoryBlock.range)
  before : r.pool.available.Pairwise MemoryBlock.Before
  live : List.Forall₂ Entry r.live r.pool.allocated

namespace Inv
variable {r : PoolRun}

theorem within (h : r.Inv) {b : MemoryBlock} (hb : b ∈ r.pool.available ++ r.pool.allocated) :
    r.pool.backing.address.toNat ≤ b.address.toNat ∧
      b.address.toNat + b.size.toNat ≤ r.pool.backing.address.toNat + r.pool.backing.size.toNat ∧
      0 < b.size.toNat ∧ b.Bounded := by
  have hpos : 0 < b.size.toNat := Nat.pos_of_ne_zero fun hzero => h.nonempty b hb (BitVec.eq_of_toNat_eq hzero)
  have hin : b.range ⊆ r.pool.backing.range := h.tiles.inside _ (List.mem_map_of_mem hb)
  obtain ⟨hlo, hhi⟩ := (Set.Ico_subset_Ico_iff (by omega)).1 hin
  have hbounded : r.pool.backing.address.toNat + r.pool.backing.size.toNat < 2 ^ 32 := h.bounded
  exact ⟨hlo, hhi, hpos, by show _ < _; omega⟩

theorem address_ne_zero (h : r.Inv) {b : MemoryBlock} (hb : b ∈ r.pool.available ++ r.pool.allocated) :
    b.address ≠ 0 := by
  intro hzero
  have hlo := (h.within hb).1
  rw [hzero] at hlo
  exact h.address (BitVec.eq_of_toNat_eq (Nat.le_zero.1 hlo))

/-- A fresh block is under no address that is in use. -/
theorem not_mem_allocated (h : r.Inv) {i : MemoryBlock} (hi : i ∈ r.pool.available) :
    ∀ b ∈ r.pool.allocated, b.address ≠ i.address := by
  intro b hb heq
  have hdisjoint : Disjoint i.range b.range :=
    (List.pairwise_append.1 (List.map_append ▸ h.tiles.disjoint)).2.2 _ (List.mem_map_of_mem hi) _
      (List.mem_map_of_mem hb)
  have hipos := (h.within (List.mem_append_left _ hi)).2.2.1
  have hbpos := (h.within (List.mem_append_right _ hb)).2.2.1
  have := Set.Ico_disjoint_Ico.1 hdisjoint
  rw [heq] at this
  omega

theorem allocate (h : r.Inv) {size : Word} (hsize : alignUp size 8 = 0 → r.pool.available = []) :
    (r.allocate size).2.Inv := by
  unfold PoolRun.allocate VariablePool.allocate
  cases htake : takeFront (alignUp size 8) r.pool.available with
  | none => exact h
  | some taken =>
    obtain ⟨address, available'⟩ := taken
    obtain ⟨pre, i, post, hblocks, -, hi, rfl, rfl⟩ := takeFront_cases htake
    have hmem : i ∈ r.pool.available := by rw [hblocks]; simp
    have hne : alignUp size 8 ≠ 0 := fun hzero => by rw [hsize hzero] at hmem; cases hmem
    obtain ⟨-, -, hpos, hbounded⟩ := h.within (List.mem_append_left _ hmem)
    have hbounded : i.address.toNat + i.size.toNat < 2 ^ 32 := hbounded
    have hfresh : r.pool.allocated.any (fun b => b.address = i.address) = false := by
      rw [List.any_eq_false]
      intro b hb
      simpa using h.not_mem_allocated hmem b hb
    have hround := le_alignUp_eight hne
    generalize alignUp size 8 = requested at hi hne hround ⊢
    rw [BitVec.lt_def, not_lt] at hi
    dsimp only
    rw [hfresh, if_neg (by simp), if_neg (h.address_ne_zero (List.mem_append_left _ hmem))]
    have hnonempty := h.nonempty
    have htiles := h.tiles
    have hbefore := h.before
    rw [hblocks] at hnonempty htiles hbefore
    refine ⟨h.address, h.size, h.bounded, ?_, ?_, ?_, ?_⟩
    · intro b hb
      simp only [List.mem_append, List.mem_cons] at hb hnonempty
      rcases hb with (hb | hb | hb) | rfl | hb
      · exact hnonempty b (.inl (.inl hb))
      · exact (MemoryBlock.dropFront_mem hbounded hi hb).1
      · exact hnonempty b (.inl (.inr (.inr hb)))
      · exact hne
      · exact hnonempty b (.inr hb)
    · have hparts : Tiles r.pool.backing.range
          (i.range :: (pre ++ post ++ r.pool.allocated).map MemoryBlock.range) := by
        refine htiles.perm (perm_of_count fun a => ?_)
        simp only [List.map_append, List.map_cons, List.count_cons, List.count_append]
        omega
      refine (MemoryBlock.tiles_dropFront hbounded hi hparts).perm (perm_of_count fun a => ?_)
      simp only [List.map_append, List.map_cons, List.count_cons, List.count_append]
      omega
    · exact MemoryBlock.before_dropFront hbounded hi hbefore
    · exact .cons ⟨rfl, hround⟩ h.live

theorem free (h : r.Inv) {address : Word} {r' : PoolRun} (hfree : r.free address = some r') : r'.Inv := by
  obtain ⟨pool, hpool, rfl⟩ := Option.map_eq_some_iff.1 hfree
  obtain ⟨block, hfind, rfl⟩ := Option.map_eq_some_iff.1 hpool
  have hmem := List.mem_of_find?_eq_some hfind
  have hperm := perm_of_find? hfind
  have hbounds : ∀ b ∈ block :: r.pool.available, b.Bounded ∧ b.size ≠ 0 := by
    refine List.forall_mem_cons.2 ⟨?_, fun b hb => ?_⟩
    · exact ⟨(h.within (List.mem_append_right _ hmem)).2.2.2, h.nonempty _ (List.mem_append_right _ hmem)⟩
    · exact ⟨(h.within (List.mem_append_left _ hb)).2.2.2, h.nonempty _ (List.mem_append_left _ hb)⟩
  have htiles : Tiles r.pool.backing.range ((block :: r.pool.available).map MemoryBlock.range ++
      (r.pool.allocated.eraseP (·.address = address)).map MemoryBlock.range) := by
    refine h.tiles.perm ?_
    refine ((hperm.append_left r.pool.available).map MemoryBlock.range).trans (perm_of_count fun a => ?_)
    simp only [List.map_append, List.map_cons, List.count_cons, List.count_append, List.cons_append]
    omega
  refine ⟨h.address, h.size, h.bounded, ?_, ?_, ?_, ?_⟩
  · intro b hb
    rcases List.mem_append.1 hb with hb | hb
    · exact (putBack_bounded hbounds b hb).2
    · exact h.nonempty b (List.mem_append_right _ (List.mem_of_mem_eraseP hb))
  · rw [List.map_append]
    exact putBack_motive (Tiles.joinStable _) (fun b hb => (hbounds b hb).1) htiles
  · exact putBack_before hbounds (List.pairwise_append.1 htiles.disjoint).1
  · exact forall₂_eraseP h.live fun b c hbc => by rw [hbc.1]

/-- Available blocks that fill the region are one block. -/
theorem restores (h : r.Inv) (hlive : r.live = []) : r.pool.available = [r.pool.backing] := by
  have hallocated : r.pool.allocated = [] := List.forall₂_nil_left_iff.1 (hlive ▸ h.live)
  have hwithin := fun b => h.within (b := b)
  have htiles := h.tiles
  have hbefore := h.before
  have hbounded : r.pool.backing.address.toNat + r.pool.backing.size.toNat < 2 ^ 32 := h.bounded
  rw [hallocated, List.append_nil] at htiles hwithin
  have hcover : ∀ x, r.pool.backing.address.toNat ≤ x →
      x < r.pool.backing.address.toNat + r.pool.backing.size.toNat →
        ∃ b ∈ r.pool.available, b.address.toNat ≤ x ∧ x < b.address.toNat + b.size.toNat := by
    intro x hlo hhi
    obtain ⟨p, hp, hx⟩ := htiles.covers x ⟨hlo, hhi⟩
    obtain ⟨b, hb, rfl⟩ := List.mem_map.1 hp
    exact ⟨b, hb, hx⟩
  have hpos : 0 < r.pool.backing.size.toNat :=
    Nat.pos_of_ne_zero fun hzero => h.size (BitVec.eq_of_toNat_eq hzero)
  cases havailable : r.pool.available with
  | nil =>
    obtain ⟨b, hb, -⟩ := hcover _ le_rfl (Nat.lt_add_of_pos_right hpos)
    rw [havailable] at hb
    cases hb
  | cons a rest =>
    rw [havailable] at hwithin hbefore hcover
    obtain ⟨halo, hahi, hapos, -⟩ := hwithin a (by simp)
    have hrest : ∀ b ∈ rest, a.address.toNat + a.size.toNat < b.address.toNat :=
      (List.pairwise_cons.1 hbefore).1
    -- only the first block can hold the first address, and an address right behind it is in no block
    have hfirst : a.address.toNat = r.pool.backing.address.toNat := by
      obtain ⟨b, hb, hle, -⟩ := hcover _ le_rfl (Nat.lt_add_of_pos_right hpos)
      rcases List.mem_cons.1 hb with rfl | hb
      · omega
      · have := hrest b hb
        omega
    have hlast : a.address.toNat + a.size.toNat =
        r.pool.backing.address.toNat + r.pool.backing.size.toNat := by
      by_contra hne
      obtain ⟨b, hb, hle, hlt⟩ := hcover (a.address.toNat + a.size.toNat) (by omega) (by omega)
      rcases List.mem_cons.1 hb with rfl | hb
      · omega
      · have := hrest b hb
        omega
    have hnil : rest = [] := by
      refine List.eq_nil_iff_forall_not_mem.2 fun b hb => ?_
      obtain ⟨-, hbhi, hbpos, -⟩ := hwithin b (by simp [hb])
      have := hrest b hb
      omega
    have ha : a = r.pool.backing :=
      MemoryBlock.ext (BitVec.eq_of_toNat_eq hfirst) (BitVec.eq_of_toNat_eq (by omega))
    rw [hnil, ha]

theorem live_apart (h : r.Inv) : r.live.Pairwise MemoryBlock.Apart := by
  have hdisjoint : r.pool.allocated.Pairwise fun b c => Disjoint b.range c.range :=
    List.pairwise_map.1 (List.pairwise_append.1 (List.map_append ▸ h.tiles.disjoint)).2.1
  have hpos : ∀ b ∈ r.pool.allocated, 0 < b.size.toNat :=
    fun b hb => (h.within (List.mem_append_right _ hb)).2.2.1
  have hentries : r.pool.allocated.Pairwise fun b c =>
      0 < b.size.toNat ∧ 0 < c.size.toNat ∧ Disjoint b.range c.range :=
    hdisjoint.imp_of_mem fun hb hc hd => ⟨hpos _ hb, hpos _ hc, hd⟩
  refine pairwise_of_forall₂ h.live ?_ hentries
  rintro x b y c hx hy ⟨hb, hc, hd⟩
  exact hx.apart hy hb hc hd

end Inv

end PoolRun

/-! ### All pools -/

namespace VplRun

structure Inv (m : ConfiguredMemory) (r : VplRun) : Prop where
  memory : r.memory.Inv m
  backings : ∃ rest, r.memory.live = r.pools.map (·.2.pool.backing) ++ rest
  uids : (r.pools.map Prod.fst).Nodup
  fresh : ∀ p ∈ r.pools, p.1 < r.nextUid
  pools : ∀ p ∈ r.pools, p.2.Inv

namespace Inv
variable {m : ConfiguredMemory} {r : VplRun}

theorem create (h : r.Inv m) (size : Word) : (r.sceKernelCreateVpl size).1.Inv m := by
  unfold sceKernelCreateVpl
  by_cases hsize : size = 0
  · rw [if_pos hsize]
    exact h
  rw [if_neg hsize]
  have ha : IsAlignment 8 := ⟨3, by omega, rfl⟩
  dsimp only
  rcases h.memory.allocateHeap ha size with hfail | hinv
  · rw [hfail, if_pos rfl]
    exact h
  obtain ⟨rest, hbackings⟩ := h.backings
  by_cases haddress : (r.memory.heap.allocateHeap size 8).1 = 0
  · rw [if_pos haddress]
    exact ⟨hinv.drop_live rfl, ⟨rest, hbackings⟩, h.uids, h.fresh, h.pools⟩
  rw [if_neg haddress]
  refine ⟨hinv, ⟨rest, by simp [hbackings]⟩, ?_, ?_, ?_⟩
  · refine List.nodup_cons.2 ⟨fun hmem => ?_, h.uids⟩
    obtain ⟨p, hp, heq⟩ := List.mem_map.1 hmem
    exact absurd heq (h.fresh p hp).ne
  · refine List.forall_mem_cons.2 ⟨Int.lt_succ _, fun p hp => ?_⟩
    exact (h.fresh p hp).trans (Int.lt_succ _)
  · refine List.forall_mem_cons.2 ⟨?_, h.pools⟩
    have hin := hinv.live (List.mem_cons_self ..)
    obtain ⟨-, -, hbounded⟩ := MemoryBlock.bounded_of_inside hin hsize
    exact ⟨haddress, hsize, hbounded, by simpa using hsize, Tiles.single, List.pairwise_singleton _ _, .nil⟩

theorem update (h : r.Inv m) {uid : Int} {p p' : PoolRun} (hlookup : r.pools.lookup uid = some p)
    (hp' : p'.Inv) (hbacking : p'.pool.backing = p.pool.backing) : (r.update uid p').Inv m := by
  obtain ⟨rest, hbackings⟩ := h.backings
  obtain ⟨pre, post, hpools, -⟩ := List.lookup_eq_some_iff.1 hlookup
  have huids := h.uids
  rw [hpools, List.map_append, List.map_cons, List.nodup_append, List.nodup_cons] at huids
  obtain ⟨-, ⟨huid, -⟩, hcross⟩ := huids
  have hpre : ∀ e ∈ pre, e.1 ≠ uid := fun e he => hcross _ (List.mem_map_of_mem he) _ (by simp)
  have hpost : ∀ e ∈ post, e.1 ≠ uid := fun e he heq => huid (List.mem_map.2 ⟨e, he, heq⟩)
  have hsame : ∀ l : List (Int × PoolRun), (∀ e ∈ l, e.1 ≠ uid) →
      (l.map fun entry => if entry.1 = uid then (uid, p') else entry) = l := by
    intro l hl
    conv_rhs => rw [← List.map_id l]
    exact List.map_congr_left fun e he => if_neg (hl e he)
  have hupdate : (r.update uid p').pools = pre ++ (uid, p') :: post := by
    unfold VplRun.update
    dsimp only
    rw [hpools, List.map_append, List.map_cons, hsame pre hpre, hsame post hpost, if_pos rfl]
  have hmem : ∀ q ∈ (r.update uid p').pools, q = (uid, p') ∨ q ∈ r.pools := by
    intro q hq
    rw [hupdate] at hq
    rw [hpools]
    simp only [List.mem_append, List.mem_cons] at hq ⊢
    tauto
  refine ⟨h.memory, ⟨rest, ?_⟩, ?_, ?_, ?_⟩
  · rw [hupdate]
    show r.memory.live = _
    rw [hbackings, hpools]
    simp [hbacking]
  · rw [hupdate]
    have := h.uids
    rw [hpools] at this
    simpa using this
  · intro q hq
    rcases hmem q hq with rfl | hq
    · exact h.fresh (uid, p) (by rw [hpools]; simp)
    · exact h.fresh q hq
  · intro q hq
    rcases hmem q hq with rfl | hq
    · exact hp'
    · exact h.pools q hq

theorem pool (h : r.Inv m) {uid : Int} {p : PoolRun} (hlookup : r.pools.lookup uid = some p) : p.Inv := by
  obtain ⟨pre, post, hpools, -⟩ := List.lookup_eq_some_iff.1 hlookup
  exact h.pools (uid, p) (by rw [hpools]; simp)

theorem allocate (h : r.Inv m) {uid : Int} {p : PoolRun} (hlookup : r.pools.lookup uid = some p) {size : Word}
    (hsize : alignUp size 8 = 0 → p.pool.available = []) : (r.update uid (p.allocate size).2).Inv m := by
  refine h.update hlookup ((h.pool hlookup).allocate hsize) ?_
  unfold PoolRun.allocate VariablePool.allocate
  cases takeFront (alignUp size 8) p.pool.available <;> rfl

theorem step (h : r.Inv m) {call : VplCall} {r' : VplRun} (hcall : r.AsksForSome call)
    (hstep : r.step call = some r') : r'.Inv m := by
  cases call with
  | create size =>
    obtain rfl := Option.some.inj hstep
    exact h.create size
  | tryAllocate uid size =>
    obtain rfl := Option.some.inj hstep
    dsimp only [sceKernelTryAllocateVpl]
    cases hlookup : r.pools.lookup uid with
    | none => exact h
    | some p => exact h.allocate hlookup (hcall p hlookup)
  | allocate uid size =>
    obtain rfl := Option.some.inj hstep
    dsimp only [sceKernelAllocateVpl]
    cases hlookup : r.pools.lookup uid with
    | none => exact h
    | some p => exact h.allocate hlookup (hcall p hlookup)
  | free uid address =>
    obtain rfl := Option.some.inj hstep
    dsimp only [sceKernelFreeVpl]
    cases hfree : (r.pools.lookup uid).bind (·.free address) with
    | none => exact h
    | some p' =>
      obtain ⟨p, hlookup, hfree⟩ := Option.bind_eq_some_iff.1 hfree
      refine h.update hlookup ((h.pool hlookup).free hfree) ?_
      obtain ⟨pool, hpool, rfl⟩ := Option.map_eq_some_iff.1 hfree
      obtain ⟨block, -, rfl⟩ := Option.map_eq_some_iff.1 hpool
      rfl

/-- Live blocks of two pools, inside backings that the heap keeps apart. -/
theorem apart (h : r.Inv m) : (r.pools.flatMap (·.2.live)).Pairwise MemoryBlock.Apart := by
  obtain ⟨rest, hbackings⟩ := h.backings
  have hlive : (r.memory.live.map MemoryBlock.range).Pairwise Disjoint := by
    have hregions := h.memory.packed.disjoint
    rw [HeapRun.regions, List.map_append, List.map_append] at hregions
    exact (List.pairwise_append.1 (List.pairwise_append.1 hregions.tail.tail).1).1
  have hpools : r.pools.Pairwise fun p q => Disjoint p.2.pool.backing.range q.2.pool.backing.range := by
    rw [hbackings, List.map_append, List.map_map] at hlive
    exact List.pairwise_map.1 (List.pairwise_append.1 hlive).1
  refine List.pairwise_flatMap.2 ⟨fun p hp => (h.pools p hp).live_apart, ?_⟩
  refine hpools.imp_of_mem fun {p q} hp hq hd x hx y hy => ?_
  obtain ⟨b, hb, hxb⟩ := exists_of_forall₂ (h.pools p hp).live hx
  obtain ⟨c, hc, hyc⟩ := exists_of_forall₂ (h.pools q hq).live hy
  have hbin : b.range ⊆ p.2.pool.backing.range :=
    (h.pools p hp).tiles.inside _ (List.mem_map_of_mem (List.mem_append_right _ hb))
  have hcin : c.range ⊆ q.2.pool.backing.range :=
    (h.pools q hq).tiles.inside _ (List.mem_map_of_mem (List.mem_append_right _ hc))
  exact hxb.apart hyc ((h.pools p hp).within (List.mem_append_right _ hb)).2.2.1
    ((h.pools q hq).within (List.mem_append_right _ hc)).2.2.1 (hd.mono hbin hcin)

theorem sound (h : r.Inv m) : r.Sound := by
  refine ⟨fun p hp => (h.pools p hp).tiles, ?_, h.apart, fun p hp => (h.pools p hp).restores⟩
  intro p hp block hblock
  obtain ⟨b, hb, haddress, hsize⟩ := exists_of_forall₂ (h.pools p hp).live hblock
  exact ⟨b, hb, haddress.symm, hsize,
    (h.pools p hp).tiles.inside _ (List.mem_map_of_mem (List.mem_append_right _ hb))⟩

end Inv

end VplRun

/-- After any heap calls, and while no size that rounds to zero meets an available block, the pools are
sound. -/
theorem vpl_sound (m : ConfiguredMemory) (heapCalls : List HeapCall) (memory : HeapRun)
    (hmemory : run HeapRun.step { heap := m.heap } heapCalls = some memory) (calls : List VplCall) (r : VplRun)
    (hrun : run VplRun.step { memory } calls = some r)
    (hcalls : Guarded VplRun.step VplRun.AsksForSome { memory } calls) : r.Sound := by
  have hinv : memory.Inv m := run_invariant (fun _ _ _ h hstep => h.step hstep) m.heap_inv hmemory
  have hstart : VplRun.Inv m { memory } := ⟨hinv, ⟨memory.live, rfl⟩, .nil, by simp, by simp⟩
  exact (run_guarded (fun _ _ _ h hcall hstep => h.step hcall hstep) hstart hcalls hrun).sound

/-- A pool of 64 bytes with one block of 13. -/
theorem vpl_sound_thirteen :
    ∃ r, run VplRun.step { memory := { heap := userMemory.heap } } [.create 64, .tryAllocate 0x100 13] = some r ∧
      (r.pools.map fun p => (p.2.pool.available, p.2.live)) =
        [([⟨0x08800010, 48⟩], [⟨0x08800000, 13⟩])] ∧ r.Sound := by
  obtain ⟨r, hrun⟩ : ∃ r, run VplRun.step { memory := { heap := userMemory.heap } }
      [.create 64, .tryAllocate 0x100 13] = some r := ⟨_, rfl⟩
  have hvalues : (run VplRun.step { memory := { heap := userMemory.heap } }
      [.create 64, .tryAllocate 0x100 13]).map (fun r => r.pools.map fun p => (p.2.pool.available, p.2.live)) =
        some [([⟨0x08800010, 48⟩], [⟨0x08800000, 13⟩])] := by
    decide
  rw [hrun] at hvalues
  have hne : alignUp 13 8 ≠ 0 := by decide
  exact ⟨r, hrun, Option.some.inj hvalues, vpl_sound userMemory [] _ rfl _ r hrun
    ⟨trivial, fun _ _ => ⟨fun _ _ hzero => absurd hzero hne, fun _ _ => trivial⟩⟩⟩

/-- A request for nothing and the one behind it get the same address. -/
theorem vpl_unsound :
    ∃ r, run VplRun.step { memory := { heap := userMemory.heap } }
        [.create 64, .tryAllocate 0x100 0, .tryAllocate 0x100 16] = some r ∧ ¬ r.Sound := by
  obtain ⟨r, hrun⟩ : ∃ r, run VplRun.step { memory := { heap := userMemory.heap } }
      [.create 64, .tryAllocate 0x100 0, .tryAllocate 0x100 16] = some r := ⟨_, rfl⟩
  have hvalues : (run VplRun.step { memory := { heap := userMemory.heap } }
      [.create 64, .tryAllocate 0x100 0, .tryAllocate 0x100 16]).map (fun r => r.pools.flatMap (·.2.live)) =
        some [⟨0x08800000, 16⟩, ⟨0x08800000, 0⟩] := by
    decide
  rw [hrun] at hvalues
  refine ⟨r, hrun, fun hsound => ?_⟩
  have hapart := hsound.apart
  rw [show r.pools.flatMap (·.2.live) = _ from Option.some.inj hvalues] at hapart
  exact ((List.pairwise_cons.1 hapart).1 ⟨0x08800000, 0⟩ List.mem_cons_self).1 rfl

end Psprism
